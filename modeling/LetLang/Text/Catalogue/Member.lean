/-!
# Members

A name in a template can go on with a member of the piece that it stands for. A member is known by
its name; its role says what it gives on a subject. Most members come with a signature and a help
text, which are members of them in turn.
-/
namespace LetLang.Catalogue

/-- What a member is, which decides what it gives on a subject. -/
inductive Role where
  /-- An operation on the subject. -/
  | method
  /-- An operation on the subject that an operator or a built-in notation stands for. -/
  | hook
  /-- An operation on the class of the subject. -/
  | classMethod
  /-- A value that is worked out. -/
  | computed
  /-- A value that the subject holds. -/
  | stored
  /-- The operation that makes the subjects of a class. -/
  | factory
  /-- An operation on nothing but its arguments. -/
  | free
  /-- A text, or nothing. -/
  | words
  deriving DecidableEq, Repr

structure Member where
  name : String
  role : Role
  signature : Option String
  /-- For a member that is a text, that text. -/
  help : Option String
  deriving DecidableEq, Repr

/-- A text of several lines; without any line, no text. -/
def linesText : List String → Option String
  | [] => none
  | lines => some (String.intercalate "\n" lines)

/-- The signatures and help texts of hooks, which are the same in every class. -/
def hookHelp : List (String × String × String) := [
  ("__abs__", "($self, /)", "abs(self)"),
  ("__add__", "($self, value, /)", "Return self+value."),
  ("__and__", "($self, value, /)", "Return self&value."),
  ("__bool__", "($self, /)", "True if self else False"),
  ("__call__", "($self, /, *args, **kwargs)", "Call self as a function."),
  ("__contains__", "($self, key, /)", "Return key in self."),
  ("__delattr__", "($self, name, /)", "Implement delattr(self, name)."),
  ("__delete__", "($self, instance, /)", "Delete an attribute of instance."),
  ("__delitem__", "($self, key, /)", "Delete self[key]."),
  ("__divmod__", "($self, value, /)", "Return divmod(self, value)."),
  ("__eq__", "($self, value, /)", "Return self==value."),
  ("__float__", "($self, /)", "float(self)"),
  ("__floordiv__", "($self, value, /)", "Return self//value."),
  ("__ge__", "($self, value, /)", "Return self>=value."),
  ("__get__", "($self, instance, owner=None, /)",
    "Return an attribute of instance, which is of type owner."),
  ("__getattribute__", "($self, name, /)", "Return getattr(self, name)."),
  ("__getitem__", "($self, key, /)", "Return self[key]."),
  ("__gt__", "($self, value, /)", "Return self>value."),
  ("__hash__", "($self, /)", "Return hash(self)."),
  ("__index__", "($self, /)",
    "Return self converted to an integer, if self is suitable for use as an index into a list."),
  ("__init__", "($self, /, *args, **kwargs)",
    "Initialize self.  See help(type(self)) for accurate signature."),
  ("__int__", "($self, /)", "int(self)"),
  ("__invert__", "($self, /)", "~self"),
  ("__ior__", "($self, value, /)", "Return self|=value."),
  ("__iter__", "($self, /)", "Implement iter(self)."),
  ("__le__", "($self, value, /)", "Return self<=value."),
  ("__len__", "($self, /)", "Return len(self)."),
  ("__lshift__", "($self, value, /)", "Return self<<value."),
  ("__lt__", "($self, value, /)", "Return self<value."),
  ("__mod__", "($self, value, /)", "Return self%value."),
  ("__mul__", "($self, value, /)", "Return self*value."),
  ("__ne__", "($self, value, /)", "Return self!=value."),
  ("__neg__", "($self, /)", "-self"),
  ("__or__", "($self, value, /)", "Return self|value."),
  ("__pos__", "($self, /)", "+self"),
  ("__pow__", "($self, value, mod=None, /)", "Return pow(self, value, mod)."),
  ("__radd__", "($self, value, /)", "Return value+self."),
  ("__rand__", "($self, value, /)", "Return value&self."),
  ("__rdivmod__", "($self, value, /)", "Return divmod(value, self)."),
  ("__repr__", "($self, /)", "Return repr(self)."),
  ("__rfloordiv__", "($self, value, /)", "Return value//self."),
  ("__rlshift__", "($self, value, /)", "Return value<<self."),
  ("__rmod__", "($self, value, /)", "Return value%self."),
  ("__rmul__", "($self, value, /)", "Return value*self."),
  ("__ror__", "($self, value, /)", "Return value|self."),
  ("__rpow__", "($self, value, mod=None, /)", "Return pow(value, self, mod)."),
  ("__rrshift__", "($self, value, /)", "Return value>>self."),
  ("__rshift__", "($self, value, /)", "Return self>>value."),
  ("__rsub__", "($self, value, /)", "Return value-self."),
  ("__rtruediv__", "($self, value, /)", "Return value/self."),
  ("__rxor__", "($self, value, /)", "Return value^self."),
  ("__set__", "($self, instance, value, /)", "Set an attribute of instance to value."),
  ("__setattr__", "($self, name, value, /)", "Implement setattr(self, name, value)."),
  ("__setitem__", "($self, key, value, /)", "Set self[key] to value."),
  ("__str__", "($self, /)", "Return str(self)."),
  ("__sub__", "($self, value, /)", "Return self-value."),
  ("__truediv__", "($self, value, /)", "Return self/value."),
  ("__xor__", "($self, value, /)", "Return self^value.")]

namespace Member

def method (name : String) (signature : Option String) (help : List String) : Member :=
  { name, role := .method, signature, help := linesText help }

def classMethod (name : String) (signature : Option String) (help : List String) : Member :=
  { name, role := .classMethod, signature, help := linesText help }

def free (name : String) (signature : Option String) (help : List String) : Member :=
  { name, role := .free, signature, help := linesText help }

def computed (name : String) (help : List String) : Member :=
  { name, role := .computed, signature := none, help := linesText help }

def stored (name : String) (help : List String) : Member :=
  { name, role := .stored, signature := none, help := linesText help }

def words (name : String) (help : List String) : Member :=
  { name, role := .words, signature := none, help := linesText help }

def hook (name : String) : Member :=
  let help := hookHelp.lookup name
  { name, role := .hook, signature := help.map (·.1), help := help.map (·.2) }

def factory : Member where
  name := "__new__"
  role := .factory
  signature := "($type, *args, **kwargs)"
  help := "Create and return a new object.  See help(type) for accurate signature."

/-- Whether the member is a value of the subject, and not an operation or a text of its class. -/
def isValue (member : Member) : Bool :=
  member.role = .computed || member.role = .stored

end Member
end LetLang.Catalogue
