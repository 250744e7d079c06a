import LetLang.Text.Catalogue.Member
/-!
# The members of the plain classes

What everything has, and what classes, tuples, the absent value, member tables, dictionaries and
classes with an index have beside it, in the order in which their tables list them.
-/
namespace LetLang.Catalogue

/-- The members that everything has. -/
def objectMembers : List Member := [
  .factory, .hook "__repr__", .hook "__hash__", .hook "__str__", .hook "__getattribute__",
  .hook "__setattr__", .hook "__delattr__", .hook "__lt__", .hook "__le__", .hook "__eq__",
  .hook "__ne__", .hook "__gt__", .hook "__ge__", .hook "__init__",
  .method "__reduce_ex__" "($self, protocol, /)" ["Helper for pickle."],
  .method "__reduce__" "($self, /)" ["Helper for pickle."],
  .method "__getstate__" "($self, /)" ["Helper for pickle."],
  .classMethod "__subclasshook__" none
    ["Abstract classes can override this to customize issubclass().",
     "",
     "This is invoked early on by abc.ABCMeta.__subclasscheck__().",
     "It should return True, False or NotImplemented.  If it returns",
     "NotImplemented, the normal algorithm is used.  Otherwise, it",
     "overrides the normal algorithm (and the outcome is cached).",
     ""],
  .classMethod "__init_subclass__" none
    ["This method is called when a class is subclassed.",
     "",
     "The default implementation does nothing. It may be",
     "overridden to extend subclasses.",
     ""],
  .method "__format__" "($self, format_spec, /)" ["Default object formatter."],
  .method "__sizeof__" "($self, /)" ["Size of object in memory, in bytes."],
  .method "__dir__" "($self, /)" ["Default dir() implementation."],
  .computed "__class__" ["the object's class"],
  .words "__doc__"
    ["The base class of the class hierarchy.",
     "",
     "When called, it accepts no arguments and returns a new featureless",
     "instance that has no instance attributes and cannot be given any.",
     ""]]

/-- The members of classes. -/
def metaclassMembers : List Member := [
  .factory, .hook "__repr__", .hook "__call__", .hook "__getattribute__", .hook "__setattr__",
  .hook "__delattr__", .hook "__init__", .hook "__or__", .hook "__ror__",
  .method "mro" "($self, /)" ["Return a type's method resolution order."],
  .method "__subclasses__" "($self, /)" ["Return a list of immediate subclasses."],
  .classMethod "__prepare__" none
    ["__prepare__() -> dict",
     "used to create the namespace for the class statement"],
  .method "__instancecheck__" "($self, instance, /)" ["Check if an object is an instance."],
  .method "__subclasscheck__" "($self, subclass, /)" ["Check if a class is a subclass."],
  .method "__dir__" "($self, /)" ["Specialized __dir__ implementation for types."],
  .method "__sizeof__" "($self, /)" ["Return memory consumption of the type object."],
  .stored "__basicsize__" [], .stored "__itemsize__" [], .stored "__flags__" [],
  .stored "__weakrefoffset__" [], .stored "__base__" [], .stored "__dictoffset__" [],
  .stored "__mro__" [], .computed "__name__" [], .computed "__qualname__" [],
  .computed "__bases__" [], .computed "__module__" [], .computed "__abstractmethods__" [],
  .computed "__dict__" [], .computed "__doc__" [], .computed "__text_signature__" [],
  .computed "__annotations__" []]

/-- The members of tuples. -/
def tupleMembers : List Member := [
  .factory, .hook "__repr__", .hook "__hash__", .hook "__getattribute__", .hook "__lt__",
  .hook "__le__", .hook "__eq__", .hook "__ne__", .hook "__gt__", .hook "__ge__",
  .hook "__iter__", .hook "__len__", .hook "__getitem__", .hook "__add__", .hook "__mul__",
  .hook "__rmul__", .hook "__contains__",
  .method "__getnewargs__" "($self, /)" [],
  .method "index" "($self, value, start=0, stop=sys.maxsize, /)"
    ["Return first index of value.",
     "",
     "Raises ValueError if the value is not present."],
  .method "count" "($self, value, /)" ["Return number of occurrences of value."],
  .classMethod "__class_getitem__" none ["See PEP 585"],
  .words "__doc__"
    ["Built-in immutable sequence.",
     "",
     "If no argument is given, the constructor returns an empty tuple.",
     "If iterable is specified the tuple is initialized from iterable's items.",
     "",
     "If the argument is a tuple, the return value is the same object."]]

/-- The members of the absent value. -/
def nothingMembers : List Member := [
  .factory, .hook "__repr__", .hook "__bool__", .words "__doc__" []]

/-- The members of member tables. -/
def tableMembers : List Member := [
  .factory, .hook "__repr__", .hook "__str__", .hook "__getattribute__", .hook "__lt__",
  .hook "__le__", .hook "__eq__", .hook "__ne__", .hook "__gt__", .hook "__ge__",
  .hook "__iter__", .hook "__or__", .hook "__ror__", .hook "__ior__", .hook "__len__",
  .hook "__getitem__", .hook "__contains__",
  .method "get" none
    ["D.get(k[,d]) -> D[k] if k in D, else d.  d defaults to None."],
  .method "keys" none
    ["D.keys() -> a set-like object providing a view on D's keys"],
  .method "values" none
    ["D.values() -> an object providing a view on D's values"],
  .method "items" none
    ["D.items() -> a set-like object providing a view on D's items"],
  .method "copy" none ["D.copy() -> a shallow copy of D"],
  .classMethod "__class_getitem__" none ["See PEP 585"],
  .method "__reversed__" none ["D.__reversed__() -> reverse iterator"],
  .words "__doc__" [], .words "__hash__" []]

/-- The members of dictionaries. -/
def dictionaryMembers : List Member := [
  .factory, .hook "__repr__", .words "__hash__" [], .hook "__getattribute__", .hook "__lt__",
  .hook "__le__", .hook "__eq__", .hook "__ne__", .hook "__gt__", .hook "__ge__",
  .hook "__iter__", .hook "__init__", .hook "__or__", .hook "__ror__", .hook "__ior__",
  .hook "__len__",
  .method "__getitem__" none ["x.__getitem__(y) <==> x[y]"],
  .hook "__setitem__", .hook "__delitem__",
  .method "__contains__" "($self, key, /)"
    ["True if the dictionary has the specified key, else False."],
  .method "__sizeof__" none ["D.__sizeof__() -> size of D in memory, in bytes"],
  .method "get" "($self, key, default=None, /)"
    ["Return the value for key if key is in the dictionary, else default."],
  .method "setdefault" "($self, key, default=None, /)"
    ["Insert key with a value of default if key is not in the dictionary.",
     "",
     "Return the value for key if key is in the dictionary, else default."],
  .method "pop" "($self, key, default=<unrepresentable>, /)"
    ["D.pop(k[,d]) -> v, remove specified key and return the corresponding value.",
     "",
     "If the key is not found, return the default if given; otherwise,",
     "raise a KeyError."],
  .method "popitem" "($self, /)"
    ["Remove and return a (key, value) pair as a 2-tuple.",
     "",
     "Pairs are returned in LIFO (last-in, first-out) order.",
     "Raises KeyError if the dict is empty."],
  .method "keys" none
    ["D.keys() -> a set-like object providing a view on D's keys"],
  .method "items" none
    ["D.items() -> a set-like object providing a view on D's items"],
  .method "values" none
    ["D.values() -> an object providing a view on D's values"],
  .method "update" none
    ["D.update([E, ]**F) -> None.  Update D from dict/iterable E and F.",
     "If E is present and has a .keys() method, then does:  for k in E: D[k] = E[k]",
     "If E is present and lacks a .keys() method, then does:  for k, v in E: D[k] = v",
     "In either case, this is followed by: for k in F:  D[k] = F[k]"],
  .classMethod "fromkeys" "($type, iterable, value=None, /)"
    ["Create a new dictionary with keys from iterable and values set to value."],
  .method "clear" none ["D.clear() -> None.  Remove all items from D."],
  .method "copy" none ["D.copy() -> a shallow copy of D"],
  .method "__reversed__" "($self, /)" ["Return a reverse iterator over the dict keys."],
  .classMethod "__class_getitem__" none ["See PEP 585"],
  .words "__doc__"
    ["dict() -> new empty dictionary",
     "dict(mapping) -> new dictionary initialized from a mapping object's",
     "    (key, value) pairs",
     "dict(iterable) -> new dictionary initialized as if via:",
     "    d = \x7b\x7d",
     "    for k, v in iterable:",
     "        d[k] = v",
     "dict(**kwargs) -> new dictionary initialized with the name=value pairs",
     "    in the keyword argument list.  For example:  dict(one=1, two=2)"]]

/-- The members of classes with an index. -/
def indexedMembers : List Member := [
  .factory, .hook "__repr__", .hook "__hash__", .hook "__call__", .hook "__getattribute__",
  .hook "__lt__", .hook "__le__", .hook "__eq__", .hook "__ne__", .hook "__gt__",
  .hook "__ge__", .hook "__iter__", .hook "__or__", .hook "__ror__", .hook "__getitem__",
  .method "__mro_entries__" none [],
  .method "__instancecheck__" none [],
  .method "__subclasscheck__" none [],
  .method "__reduce__" none [],
  .method "__dir__" none [],
  .stored "__origin__" [], .stored "__args__" [], .stored "__unpacked__" [],
  .computed "__parameters__" ["Type variables in the GenericAlias."],
  .computed "__typing_unpacked_tuple_args__" [],
  .words "__doc__"
    ["Represent a PEP 585 generic type",
     "",
     "E.g. for t = list[int], t.__origin__ is list and t.__args__ is (int,)."]]

end LetLang.Catalogue
