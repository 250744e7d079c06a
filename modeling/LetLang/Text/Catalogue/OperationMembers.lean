import LetLang.Text.Catalogue.Member
/-!
# The members of members

What operations and members have themselves, bound to a subject or as their class lists them, in the
order in which their tables list them.
-/
namespace LetLang.Catalogue

/-- The members of operations that are bound to a subject. -/
def operationMembers : List Member := [
  .hook "__repr__", .hook "__hash__", .hook "__call__", .hook "__getattribute__",
  .hook "__lt__", .hook "__le__", .hook "__eq__", .hook "__ne__", .hook "__gt__",
  .hook "__ge__",
  .method "__reduce__" none [],
  .stored "__module__" [], .computed "__doc__" [], .computed "__name__" [],
  .computed "__qualname__" [], .computed "__self__" [], .computed "__text_signature__" []]

/-- The members of hooks that are bound to a subject. -/
def hookMembers : List Member := [
  .hook "__repr__", .hook "__hash__", .hook "__call__", .hook "__getattribute__",
  .hook "__lt__", .hook "__le__", .hook "__eq__", .hook "__ne__", .hook "__gt__",
  .hook "__ge__",
  .method "__reduce__" none [],
  .stored "__self__" [], .computed "__objclass__" [], .computed "__name__" [],
  .computed "__qualname__" [], .computed "__doc__" [], .computed "__text_signature__" []]

/-- The members of methods as their class lists them. -/
def methodMemberMembers : List Member := [
  .hook "__repr__", .hook "__call__", .hook "__getattribute__", .hook "__get__",
  .method "__reduce__" none [],
  .stored "__objclass__" [], .stored "__name__" [], .computed "__doc__" [],
  .computed "__qualname__" [], .computed "__text_signature__" []]

/-- The members of hooks as their class lists them. -/
def hookMemberMembers : List Member := [
  .hook "__repr__", .hook "__call__", .hook "__getattribute__", .hook "__get__",
  .method "__reduce__" none [],
  .stored "__objclass__" [], .stored "__name__" [], .computed "__doc__" [],
  .computed "__qualname__" [], .computed "__text_signature__" []]

/-- The members of computed members. -/
def computedMemberMembers : List Member := [
  .hook "__repr__", .hook "__getattribute__", .hook "__get__", .hook "__set__",
  .hook "__delete__", .stored "__objclass__" [], .stored "__name__" [], .computed "__doc__" [],
  .computed "__qualname__" []]

/-- The members of stored members. -/
def storedMemberMembers : List Member := [
  .hook "__repr__", .hook "__getattribute__", .hook "__get__", .hook "__set__",
  .hook "__delete__",
  .method "__reduce__" none [],
  .stored "__objclass__" [], .stored "__name__" [], .computed "__doc__" [],
  .computed "__qualname__" []]

/-- The members of methods of a class as the class lists them. -/
def classMemberMembers : List Member := [
  .hook "__repr__", .hook "__call__", .hook "__getattribute__", .hook "__get__",
  .stored "__objclass__" [], .stored "__name__" [], .computed "__doc__" [],
  .computed "__qualname__" [], .computed "__text_signature__" []]

/-- The members of operations on nothing, as their class lists them. -/
def staticMembers : List Member := [
  .factory, .hook "__repr__", .hook "__call__", .hook "__get__", .hook "__init__",
  .stored "__func__" [], .stored "__wrapped__" [], .computed "__isabstractmethod__" [],
  .computed "__dict__" [],
  .words "__doc__"
    ["staticmethod(function) -> method",
     "",
     "Convert a function to be a static method.",
     "",
     "A static method does not receive an implicit first argument.",
     "To declare a static method, use this idiom:",
     "",
     "     class C:",
     "         @staticmethod",
     "         def f(arg1, arg2, argN):",
     "             ...",
     "",
     "It can be called either on the class (e.g. C.f()) or on an instance",
     "(e.g. C().f()). Both the class and the instance are ignored, and",
     "neither is passed implicitly as the first argument to the method.",
     "",
     "Static methods in Python are similar to those found in Java or C++.",
     "For a more advanced concept, see the classmethod builtin."]]

end LetLang.Catalogue
