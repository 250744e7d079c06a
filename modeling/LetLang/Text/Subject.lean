import LetLang.Text.Catalogue
import LetLang.Text.Layout.Number
/-!
# Subjects

A subject is what a name in a template leads to. It begins with a text; a member or an item of a
subject is a subject again: a class, a number, an operation, a member by itself. In the end a
subject is written as a text.

A member of a subject is looked up in the classes above it. A class is a subject too: its values as
a class go first, then the members that it has for its own subjects, unbound, and last the
operations on classes.
-/
namespace LetLang

open Catalogue

inductive Subject where
  | text (s : String)
  | number (n : Nat)
  | truth (b : Bool)
  | nothing
  | ofClass (c : ClassId)
  /-- A tuple of classes. -/
  | classes (cs : List ClassId)
  /-- A tuple of one number or text. -/
  | single (key : Nat ⊕ String)
  /-- A dictionary without entries. -/
  | dictionary
  /-- The table of the members that a class adds. -/
  | table (c : ClassId)
  /-- A member as its class lists it. -/
  | member (owner : ClassId) (member : Member)
  /-- A method or a function, bound to what it works on. -/
  | operation (on : Subject) (member : Member)
  | hook (on : Subject) (owner : ClassId) (member : Member)
  /-- An operation on nothing, as its class lists it. -/
  | static (owner : ClassId) (member : Member)
  /-- A class with a text or a number in brackets. -/
  | indexed (c : ClassId) (index : Nat ⊕ String)
  deriving DecidableEq, Repr

namespace Subject

/-- Why a subject does not have what a template asks of it. -/
inductive Fault where
  | noMember (c : ClassId) (name : String)
  | noClassMember (c : ClassId) (name : String)
  | noAbstractMethods
  | notAnIndex
  | noCharacter
  | noTupleIndex
  | noTupleItem
  | noKey (key : Nat ⊕ String)
  | noItems (c : ClassId)
  | noClassItems (c : ClassId)
  | noIndexedItems (shown : String)
  | noLayout (c : ClassId)
  | layout (fault : Layout.Fault)
  deriving DecidableEq, Repr

/-- The class that a subject belongs to. -/
def kind : Subject → ClassId
  | text _ => .text
  | number _ => .number
  | truth _ => .truth
  | nothing => .nothing
  | ofClass _ => .metaclass
  | classes _ => .tuple
  | single _ => .tuple
  | dictionary => .dictionary
  | table _ => .table
  | member _ m =>
    match m.role with
    | .hook => .hookMember
    | .classMethod => .classMember
    | .computed => .computedMember
    | .stored => .storedMember
    | _ => .methodMember
  | operation _ _ => .operation
  | hook _ _ _ => .hook
  | static _ _ => .static
  | indexed _ _ => .indexed

/-! ### Texts of subjects -/

/-- A key or an index, with quotes around a text. -/
def shownKey : Nat ⊕ String → String
  | .inl n => Nat.repr n
  | .inr key => Text.quoted key

def shownClass (c : ClassId) : String :=
  "<class '" ++ c.fullName ++ "'>"

def shownClasses : List ClassId → String
  | [] => "()"
  | [c] => "(" ++ shownClass c ++ ",)"
  | cs => "(" ++ String.intercalate ", " (cs.map shownClass) ++ ")"

/-- What is written in place of an address. -/
def place : String := " object at 0x0>"

/-- A bound operation, by the class of what it is bound to. -/
def shownOperation (on : ClassId) (name : String) : String :=
  "<built-in method " ++ name ++ " of " ++ on.fullName ++ place

def shownMember (owner : ClassId) (m : Member) : String :=
  let shown word := "<" ++ word ++ " '" ++ m.name ++ "' of '" ++ owner.fullName ++ "' objects>"
  match m.role with
  | .method => shown "method"
  | .hook => shown "slot wrapper"
  | .classMethod => shown "method"
  | .computed => shown "attribute"
  | .stored => shown "member"
  | .factory => shownOperation .metaclass m.name
  | .free => "<staticmethod(" ++ shownOperation .metaclass m.name ++ ")>"
  | .words =>
    match m.help with
    | none => "None"
    | some words => Text.quoted words

/-- The members that a class adds, as pairs of a name and a member. -/
def shownTable (c : ClassId) : String :=
  let entry (m : Member) := Text.quoted m.name ++ ": " ++ shownMember c m
  "\x7b" ++ String.intercalate ", " (c.members.map entry) ++ "\x7d"

/-- The text of a subject as it is. -/
def plain : Subject → String
  | text s => s
  | number n => Nat.repr n
  | truth b => if b then "True" else "False"
  | nothing => "None"
  | ofClass c => shownClass c
  | classes cs => shownClasses cs
  | single key => "(" ++ shownKey key ++ ",)"
  | dictionary => "\x7b\x7d"
  | table c => shownTable c
  | member owner m => shownMember owner m
  | static owner m => shownMember owner m
  | operation on m => shownOperation on.kind m.name
  | hook on _ m => "<method-wrapper '" ++ m.name ++ "' of " ++ on.kind.fullName ++ place
  | indexed c index => c.name ++ "[" ++ shownKey index ++ "]"

/-- The text of a subject that shows what it is: a text has quotes, a table has its class. -/
def quoted : Subject → String
  | text s => Text.quoted s
  | table c => ClassId.name .table ++ "(" ++ shownTable c ++ ")"
  | subject => subject.plain

def quotedAscii (subject : Subject) : String :=
  String.ofList (subject.quoted.toList.flatMap Text.asciiChar)

/-- The text of a subject in a field. Only texts, numbers and truth values can have a layout. -/
def laidOut (layout : List Char) (subject : Subject) : Except Fault String :=
  if layout = [] then .ok subject.plain
  else
    match subject with
    | text s => (Layout.apply layout s).mapError .layout
    | number n => (Layout.applyNumber .number layout n).mapError .layout
    | truth b => (Layout.applyNumber .truth layout b.toNat).mapError .layout
    | subject => .error (.noLayout subject.kind)

/-! ### Members of subjects -/

def ofWords : Option String → Subject
  | none => nothing
  | some words => text words

/-- A member as a class has it for itself. -/
def unbound (c owner : ClassId) (m : Member) : Subject :=
  match m.role with
  | .classMethod => operation (ofClass c) m
  | .factory => operation (ofClass owner) m
  | .free => operation (ofClass owner) m
  | .words => ofWords m.help
  | _ => member owner m

/-- A member as the table of its class holds it. -/
def entry (owner : ClassId) (m : Member) : Subject :=
  match m.role with
  | .classMethod => member owner m
  | .free => static owner m
  | _ => unbound owner owner m

/-- What a class says about itself. Where its subjects have texts of their own, that is the member
that gives them. -/
def classHelp : ClassId → Subject
  | .metaclass =>
    text ("type(object) -> the object's type\n" ++
      "type(name, bases, dict, **kwds) -> a new type")
  | c =>
    match c.own? "__doc__" with
    | none => nothing
    | some m => unbound c c m

/-- The values of a class. -/
def classValue (c : ClassId) : String → Except Fault Subject
  | "__name__" => .ok (text c.name)
  | "__qualname__" => .ok (text c.name)
  | "__module__" => .ok (text c.moduleName)
  | "__doc__" => .ok (classHelp c)
  | "__text_signature__" => .ok (ofWords c.signature?)
  | "__dict__" => .ok (table c)
  | "__mro__" => .ok (classes c.ancestry)
  | "__bases__" => .ok (classes c.base?.toList)
  | "__base__" => .ok (c.base?.elim nothing ofClass)
  | "__basicsize__" => .ok (number c.measures.size)
  | "__itemsize__" => .ok (number c.measures.itemSize)
  | "__flags__" => .ok (number c.measures.flags)
  | "__dictoffset__" => .ok (number c.measures.tableOffset)
  | "__weakrefoffset__" => .ok (number c.measures.referenceOffset)
  | "__abstractmethods__" => .error .noAbstractMethods
  | name => .error (.noClassMember c name)

/-- The values of a number. -/
def numberValue (n : Nat) : String → Except Fault Subject
  | "real" => .ok (number n)
  | "numerator" => .ok (number n)
  | "imag" => .ok (number 0)
  | "denominator" => .ok (number 1)
  | name => .error (.noMember .number name)

/-- The values of a class with an index. -/
def indexedValue (c : ClassId) (index : Nat ⊕ String) : String → Except Fault Subject
  | "__origin__" => .ok (ofClass c)
  | "__args__" => .ok (single index)
  | "__parameters__" => .ok (classes [])
  | "__unpacked__" => .ok (truth false)
  | "__typing_unpacked_tuple_args__" => .ok nothing
  | name => .error (.noMember .indexed name)

/-- The name of an operation after the name of the class that it is on. -/
def operationName (on : Subject) (m : Member) : String :=
  match on with
  | ofClass c => c.name ++ "." ++ m.name
  | on => on.kind.name ++ "." ++ m.name

/-- The values of a bound operation. -/
def operationValue (on : Subject) (m : Member) : String → Except Fault Subject
  | "__name__" => .ok (text m.name)
  | "__qualname__" => .ok (text (operationName on m))
  | "__self__" => .ok (if m.role = .free then nothing else on)
  | "__module__" => .ok nothing
  | "__doc__" => .ok (ofWords m.help)
  | "__text_signature__" => .ok (ofWords m.signature)
  | name => .error (.noMember .operation name)

/-- The values of an operation on nothing. -/
def staticValue (owner : ClassId) (m : Member) : String → Except Fault Subject
  | "__func__" => .ok (operation (ofClass owner) m)
  | "__wrapped__" => .ok (operation (ofClass owner) m)
  | "__isabstractmethod__" => .ok (truth false)
  | "__dict__" => .ok dictionary
  | name => .error (.noMember .static name)

/-- The values that members have, bound or not. -/
def memberValue (c owner : ClassId) (m : Member) : String → Except Fault Subject
  | "__name__" => .ok (text m.name)
  | "__qualname__" => .ok (text (owner.name ++ "." ++ m.name))
  | "__objclass__" => .ok (ofClass owner)
  | "__doc__" => .ok (ofWords m.help)
  | "__text_signature__" => .ok (ofWords m.signature)
  | name => .error (.noMember c name)

/-- The value that a subject has under the name of one of its computed or stored members. -/
def value (subject : Subject) (name : String) : Except Fault Subject :=
  if name = "__class__" then .ok (ofClass subject.kind)
  else
    match subject with
    | ofClass c => classValue c name
    | number n => numberValue n name
    | truth b => numberValue b.toNat name
    | static owner m => staticValue owner m name
    | indexed c index => indexedValue c index name
    | operation on m => operationValue on m name
    | hook on owner m => if name = "__self__" then .ok on else memberValue .hook owner m name
    | member owner m => memberValue subject.kind owner m name
    | _ => .error (.noMember subject.kind name)

/-- A member of one of the classes of a subject, as the subject has it. -/
def bound (subject : Subject) (owner : ClassId) (m : Member) : Except Fault Subject :=
  match m.role with
  | .method => .ok (operation subject m)
  | .hook => .ok (hook subject owner m)
  | .computed => subject.value m.name
  | .stored => subject.value m.name
  | _ => .ok (unbound subject.kind owner m)

/-- What a class has under a name. -/
def classNamed (c : ClassId) (name : String) : Except Fault Subject :=
  match ClassId.metaclass.find? name, c.find? name with
  | some (owner, m), found =>
    if m.isValue then (ofClass c).value name
    else
      match found with
      | some (owner, m) => .ok (unbound c owner m)
      | none => (ofClass c).bound owner m
  | none, some (owner, m) => .ok (unbound c owner m)
  | none, none => .error (.noClassMember c name)

/-- What a subject that is no class has under a name. -/
def valueNamed (subject : Subject) (name : String) : Except Fault Subject :=
  match subject.kind.find? name with
  | some (owner, m) => subject.bound owner m
  | none => .error (.noMember subject.kind name)

/-- The names under which a class with an index does not have what the class has. -/
def indexedNames : List String :=
  ["__class__", "__origin__", "__args__", "__unpacked__", "__parameters__",
   "__typing_unpacked_tuple_args__", "__mro_entries__", "__reduce_ex__", "__reduce__", "__copy__",
   "__deepcopy__"]

/-- What a subject has under a name. -/
def named (subject : Subject) (name : String) : Except Fault Subject :=
  match subject with
  | ofClass c => classNamed c name
  | indexed c _ => if indexedNames.contains name then subject.valueNamed name else classNamed c name
  | subject => subject.valueNamed name

/-! ### Items of subjects -/

def textItem (s : String) : Nat ⊕ String → Except Fault Subject
  | .inr _ => .error .notAnIndex
  | .inl n =>
    match s.toList[n]? with
    | none => .error .noCharacter
    | some c => .ok (text (String.singleton c))

def classesItem (cs : List ClassId) : Nat ⊕ String → Except Fault Subject
  | .inr _ => .error .noTupleIndex
  | .inl n =>
    match cs[n]? with
    | none => .error .noTupleItem
    | some c => .ok (ofClass c)

def singleItem (key : Nat ⊕ String) : Nat ⊕ String → Except Fault Subject
  | .inr _ => .error .noTupleIndex
  | .inl 0 => .ok (key.elim number text)
  | .inl (_ + 1) => .error .noTupleItem

def tableItem (c : ClassId) (key : Nat ⊕ String) : Except Fault Subject :=
  match key with
  | .inl _ => .error (.noKey key)
  | .inr name =>
    match c.own? name with
    | none => .error (.noKey key)
    | some m => .ok (entry c m)

/-- Whether an index can be put after the class. -/
def takesIndex (c : ClassId) : Bool :=
  c = .metaclass || (c.own? "__class_getitem__").isSome

/-- What stands in a subject under an index or a key. -/
def item (subject : Subject) (key : Nat ⊕ String) : Except Fault Subject :=
  match subject with
  | text s => textItem s key
  | classes cs => classesItem cs key
  | single content => singleItem content key
  | dictionary => .error (.noKey key)
  | table c => tableItem c key
  | ofClass c => if takesIndex c then .ok (indexed c key) else .error (.noClassItems c)
  | indexed c index => .error (.noIndexedItems (indexed c index).plain)
  | subject => .error (.noItems subject.kind)

/-! ### Wording -/

/-- The class of failures that a fault belongs to. -/
def Fault.className : Fault → String
  | noMember _ _ => "AttributeError"
  | noClassMember _ _ => "AttributeError"
  | noAbstractMethods => "AttributeError"
  | noCharacter => "IndexError"
  | noTupleItem => "IndexError"
  | noKey _ => "KeyError"
  | layout fault => fault.className
  | _ => "TypeError"

def Fault.message : Fault → String
  | noMember c name => "'" ++ c.fullName ++ "' object has no attribute '" ++ name ++ "'"
  | noClassMember c name => "type object '" ++ c.fullName ++ "' has no attribute '" ++ name ++ "'"
  | noAbstractMethods => "__abstractmethods__"
  | notAnIndex => "string indices must be integers, not 'str'"
  | noCharacter => "string index out of range"
  | noTupleIndex => "tuple indices must be integers or slices, not str"
  | noTupleItem => "tuple index out of range"
  | noKey key => shownKey key
  | noItems c => "'" ++ c.fullName ++ "' object is not subscriptable"
  | noClassItems c => "type '" ++ c.fullName ++ "' is not subscriptable"
  | noIndexedItems shown => shown ++ " is not a generic class"
  | noLayout c => "unsupported format string passed to " ++ c.fullName ++ ".__format__"
  | layout fault => fault.message

end Subject
end LetLang
