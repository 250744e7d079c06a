import LetLang.Text.Catalogue.BaseMembers
import LetLang.Text.Catalogue.NumberMembers
import LetLang.Text.Catalogue.OperationMembers
import LetLang.Text.Catalogue.TextMembers
/-!
# Classes

The classes of all that a name in a template can lead to, with their names, their members and their
measures. Every class but `object` and `bool`, which stands below `int`, stands directly below
`object`; a class has the members of the classes above it beside its own.
-/
namespace LetLang.Catalogue

inductive ClassId where
  | text
  | object
  | metaclass
  | tuple
  | number
  | nothing
  | table
  | operation
  | hook
  | methodMember
  | hookMember
  | computedMember
  | storedMember
  | classMember
  | static
  | indexed
  | truth
  | dictionary
  deriving DecidableEq, Repr

/-- The numbers that a class keeps about its subjects. -/
structure Measures where
  size : Nat
  itemSize : Nat
  flags : Nat
  tableOffset : Nat
  referenceOffset : Nat
  deriving DecidableEq, Repr

namespace ClassId

/-- The name within the module of the class. -/
def name : ClassId → String
  | text => "str"
  | object => "object"
  | metaclass => "type"
  | tuple => "tuple"
  | number => "int"
  | nothing => "NoneType"
  | table => "mappingproxy"
  | operation => "builtin_function_or_method"
  | hook => "method-wrapper"
  | methodMember => "method_descriptor"
  | hookMember => "wrapper_descriptor"
  | computedMember => "getset_descriptor"
  | storedMember => "member_descriptor"
  | classMember => "classmethod_descriptor"
  | static => "staticmethod"
  | indexed => "GenericAlias"
  | truth => "bool"
  | dictionary => "dict"

/-- The module of the class; only one of the classes is not built in. -/
def moduleName : ClassId → String
  | indexed => "types"
  | _ => "builtins"

/-- The name by which messages speak of the class. -/
def fullName (c : ClassId) : String :=
  if c.moduleName = "builtins" then c.name else c.moduleName ++ "." ++ c.name

/-- The members that a class adds, in the order of its table. -/
def members : ClassId → List Member
  | text => textMembers
  | object => objectMembers
  | metaclass => metaclassMembers
  | tuple => tupleMembers
  | number => numberMembers
  | nothing => nothingMembers
  | table => tableMembers
  | operation => operationMembers
  | hook => hookMembers
  | methodMember => methodMemberMembers
  | hookMember => hookMemberMembers
  | computedMember => computedMemberMembers
  | storedMember => storedMemberMembers
  | classMember => classMemberMembers
  | static => staticMembers
  | indexed => indexedMembers
  | truth => truthMembers
  | dictionary => dictionaryMembers

def measures : ClassId → Measures
  | text => ⟨80, 0, 273159424, 0, 0⟩
  | object => ⟨16, 0, 529664, 0, 0⟩
  | metaclass => ⟨904, 40, 2148031744, 264, 368⟩
  | tuple => ⟨24, 8, 71849248, 0, 0⟩
  | number => ⟨24, 4, 21501184, 0, 0⟩
  | nothing => ⟨16, 0, 528640, 0, 0⟩
  | table => ⟨24, 0, 545088, 0, 0⟩
  | operation => ⟨56, 0, 547200, 0, 40⟩
  | hook => ⟨32, 0, 545152, 0, 0⟩
  | methodMember => ⟨56, 0, 678272, 0, 0⟩
  | hookMember => ⟨56, 0, 676224, 0, 0⟩
  | computedMember => ⟨48, 0, 545152, 0, 0⟩
  | storedMember => ⟨48, 0, 545152, 0, 0⟩
  | classMember => ⟨56, 0, 545152, 0, 0⟩
  | static => ⟨32, 0, 546048, 24, 0⟩
  | indexed => ⟨64, 0, 548096, 0, 40⟩
  | truth => ⟨32, 4, 21500160, 0, 0⟩
  | dictionary => ⟨48, 0, 541611328, 0, 0⟩

/-- The classes whose members a subject of the class has, the nearest first. -/
def ancestry : ClassId → List ClassId
  | object => [object]
  | truth => [truth, number, object]
  | c => [c, object]

/-- The class above. -/
def base? : ClassId → Option ClassId
  | object => none
  | truth => some number
  | _ => some object

/-- What to give to a class to make a subject, where the class says it. -/
def signature? : ClassId → Option String
  | object => "()"
  | tuple => "(iterable=(), /)"
  | _ => none

/-- The member that the class itself adds under a name. -/
def own? (c : ClassId) (name : String) : Option Member :=
  c.members.find? (·.name = name)

/-- The nearest member under a name, with the class that adds it. -/
def find? (c : ClassId) (name : String) : Option (ClassId × Member) :=
  c.ancestry.findSome? fun owner => (owner.own? name).map (owner, ·)

end ClassId
end LetLang.Catalogue
