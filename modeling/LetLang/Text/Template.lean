import LetLang.Text.Subject
/-!
# Message templates

A template is a text with fields in braces, `{name!conversion:layout}`, where every part may be
missing; a doubled brace stands for one brace. A name begins with the index of a piece, and without
one the pieces are taken in order; after it, `.member` and `[item]` lead from subject to subject.
The subject is then converted and laid out. A layout may have fields of its own, but theirs may not.

Reading and filling go together from left to right, so a fault of the text is met after the faults
of the fields before it.
-/
namespace LetLang

/-- A field as it is written. -/
structure Template.Field where
  name : List Char
  conversion : Option Char
  layout : List Char
  deriving DecidableEq, Repr

inductive Template.Part where
  | char (c : Char)
  | field (field : Template.Field)
  deriving DecidableEq, Repr

/-- Why a template cannot be filled with the given pieces. -/
inductive Template.Fault where
  | strayOpen
  | strayClose
  | openInName
  | unclosed
  | missingConversion
  | unclosedLayout
  | strayAfterConversion
  | tooManyDigits
  | automaticAfterManual
  | manualAfterAutomatic
  | unknownName (name : List Char)
  | missingPiece (index : Nat)
  | strayAfterBracket
  | unclosedBracket
  | emptySelector
  | unknownConversion (c : Char)
  | nestedTooDeep
  | subject (fault : Subject.Fault)
  deriving DecidableEq, Repr

/-- The parts of a template and, after them, perhaps a fault of its text. -/
structure Template where
  parts : List Template.Part
  ending : Option Template.Fault
  deriving DecidableEq, Repr

namespace Template

def openBrace : Char := '\x7b'
def closeBrace : Char := '\x7d'

/-! ### Reading -/

/-- The characters that end the name of a field, except between brackets. -/
def endsName (c : Char) : Bool :=
  c = openBrace || c = closeBrace || c = ':' || c = '!'

/-- The width of the name that a field begins with. -/
def nameWidth : (bracketed : Bool) → List Char → Nat
  | _, [] => 0
  | true, c :: rest => nameWidth (c ≠ ']') rest + 1
  | false, c :: rest => if endsName c then 0 else nameWidth (c = '[') rest + 1

/-- The width of the layout that ends at the brace that closes the field, inside `depth` other
pairs of braces. -/
def layoutWidth? : (depth : Nat) → List Char → Option Nat
  | _, [] => none
  | 0, c :: rest =>
    if c = closeBrace then some 0
    else (layoutWidth? (if c = openBrace then 1 else 0) rest).map (· + 1)
  | depth + 1, c :: rest =>
    let inner := if c = closeBrace then depth else if c = openBrace then depth + 2 else depth + 1
    (layoutWidth? inner rest).map (· + 1)

/-- A field from its layout on, after `width` characters; and its width, with the closing brace. -/
def readLayout (name : List Char) (conversion : Option Char) (width : Nat) (cs : List Char) :
    Except Fault (Field × Nat) :=
  match layoutWidth? 0 cs with
  | none => .error .unclosedLayout
  | some n => .ok ({ name, conversion, layout := cs.take n }, width + n + 1)

/-- The field after an opening brace, and its width, with the closing brace. -/
def readField (cs : List Char) : Except Fault (Field × Nat) :=
  let width := nameWidth false cs
  let name := cs.take width
  match cs.drop width with
  | [] => .error .unclosed
  | ':' :: rest => readLayout name none (width + 1) rest
  | ['!'] => .error .missingConversion
  | ['!', _] => .error .unclosedLayout
  | '!' :: conversion :: ':' :: rest => readLayout name (some conversion) (width + 3) rest
  | '!' :: conversion :: c :: _ =>
    if c = closeBrace then .ok ({ name, conversion, layout := [] }, width + 3)
    else .error .strayAfterConversion
  | c :: _ =>
    if c = closeBrace then .ok ({ name, conversion := none, layout := [] }, width + 1)
    else .error .openInName

/-- A template without parts that ends with a fault. -/
def fail (fault : Fault) : Template :=
  { parts := [], ending := some fault }

def cons (part : Part) (template : Template) : Template :=
  { template with parts := part :: template.parts }

/-- The template that a text is, up to its end or its first fault. -/
def parse : List Char → Template
  | [] => { parts := [], ending := none }
  | [c] =>
    if c = openBrace then fail .strayOpen
    else if c = closeBrace then fail .strayClose
    else { parts := [.char c], ending := none }
  | c :: d :: rest =>
    if c = openBrace then
      if d = openBrace then cons (.char c) (parse rest)
      else
        match readField (d :: rest) with
        | .error fault => fail fault
        | .ok (field, width) => cons (.field field) (parse ((d :: rest).drop width))
    else if c = closeBrace then
      if d = closeBrace then cons (.char c) (parse rest) else fail .strayClose
    else cons (.char c) (parse (d :: rest))
termination_by cs => cs.length
decreasing_by all_goals simp only [List.length_drop, List.length_cons]; omega

/-! ### Choosing a piece -/

/-- How fields choose their pieces; all fields of a template do it in the same way. -/
inductive Numbering where
  | undecided
  | automatic (next : Nat)
  | manual
  deriving DecidableEq, Repr

/-- The number that a text is, if it is one. -/
def index? (cs : List Char) : Except Fault (Option Nat) :=
  if cs = [] then .ok none
  else
    match Text.readIndex? 0 cs with
    | none => .error .tooManyDigits
    | some (n, []) => .ok (some n)
    | some (_, _ :: _) => .ok none

/-- The index of a piece, by the part of a name before the first selector. -/
def choose (numbering : Numbering) (start : List Char) : Except Fault (Nat × Numbering) :=
  match index? start, numbering with
  | .error fault, _ => .error fault
  | .ok (some _), .automatic _ => .error .manualAfterAutomatic
  | .ok (some n), _ => .ok (n, .manual)
  | .ok none, numbering =>
    if start ≠ [] then .error (.unknownName start)
    else
      match numbering with
      | .manual => .error .automaticAfterManual
      | .automatic next => .ok (next, .automatic (next + 1))
      | .undecided => .ok (0, .automatic 1)

def beginsSelector (c : Char) : Bool :=
  c = '.' || c = '['

/-- The index or the key that stands between brackets. -/
def itemKey (cs : List Char) : Except Fault (Nat ⊕ String) :=
  if cs = [] then .error .emptySelector
  else
    match index? cs with
    | .error fault => .error fault
    | .ok none => .ok (.inr (String.ofList cs))
    | .ok (some n) => .ok (.inl n)

/-- What the selectors of a name lead to: a point goes on to a member, brackets to an item. -/
def select (subject : Subject) : List Char → Except Fault Subject
  | [] => .ok subject
  | '.' :: rest =>
    let name := rest.takeWhile (!beginsSelector ·)
    if name = [] then .error .emptySelector
    else
      match subject.named (String.ofList name) with
      | .error fault => .error (.subject fault)
      | .ok next => select next (rest.dropWhile (!beginsSelector ·))
  | '[' :: rest =>
    if !rest.contains ']' then .error .unclosedBracket
    else
      match itemKey (rest.takeWhile (· ≠ ']')) with
      | .error fault => .error fault
      | .ok key =>
        match subject.item key with
        | .error fault => .error (.subject fault)
        | .ok next => select next ((rest.dropWhile (· ≠ ']')).drop 1)
  | _ :: _ => .error .strayAfterBracket
termination_by selectors => selectors.length
decreasing_by
  · have hle := (List.dropWhile_suffix (l := rest) (!beginsSelector ·)).length_le
    simp only [List.length_cons]
    omega
  · have hle := (List.dropWhile_suffix (l := rest) (· ≠ ']')).length_le
    simp only [List.length_drop, List.length_cons]
    omega

/-- What a name leads to, from the piece that it begins with. -/
def resolve (pieces : List String) (numbering : Numbering) (name : List Char) :
    Except Fault (Subject × Numbering) :=
  match choose numbering (name.takeWhile (!beginsSelector ·)) with
  | .error fault => .error fault
  | .ok (n, numbering) =>
    match pieces[n]? with
    | none => .error (.missingPiece n)
    | some piece =>
      match select (.text piece) (name.dropWhile (!beginsSelector ·)) with
      | .error fault => .error fault
      | .ok subject => .ok (subject, numbering)

/-- A subject after a conversion to a text: quoted, quoted in ASCII, or as it is. The null character
stands for no conversion. -/
def convert (conversion : Option Char) (subject : Subject) : Except Fault Subject :=
  match conversion with
  | none => .ok subject
  | some '\x00' => .ok subject
  | some 's' => .ok (.text subject.plain)
  | some 'r' => .ok (.text subject.quoted)
  | some 'a' => .ok (.text subject.quotedAscii)
  | some c => .error (.unknownConversion c)

/-! ### Filling -/

/-- Computations that fill fields, in the order in which they stand. -/
abbrev Filling := StateT Numbering (Except Fault)

def lift {α β : Type} (wrap : β → Fault) (result : Except β α) : Filling α :=
  match result with
  | .ok value => pure value
  | .error fault => throw (wrap fault)

/-- The text of a field, given a way to fill the fields of its layout. -/
def fillField (expand : List Char → Filling (List Char)) (pieces : List String) (field : Field) :
    Filling String := do
  let (subject, numbering) ← lift id (resolve pieces (← get) field.name)
  set numbering
  let subject ← lift id (convert field.conversion subject)
  let layout ← if field.layout.contains openBrace then expand field.layout else pure field.layout
  lift .subject (subject.laidOut layout)

def fillParts (expand : List Char → Filling (List Char)) (pieces : List String) :
    List Part → Filling String
  | [] => pure ""
  | .char c :: rest => do
    return String.singleton c ++ (← fillParts expand pieces rest)
  | .field field :: rest => do
    let text ← fillField expand pieces field
    return text ++ (← fillParts expand pieces rest)

/-- The text of a template whose fields may be nested `depth` deep. -/
def fill : (depth : Nat) → List String → Template → Filling String
  | 0, _, _ => throw .nestedTooDeep
  | depth + 1, pieces, template => do
    let expand layout := return (← fill depth pieces (parse layout)).toList
    let text ← fillParts expand pieces template.parts
    match template.ending with
    | some fault => throw fault
    | none => return text

/-- A template filled with pieces. -/
def format (text : String) (pieces : List String) : Except Fault String :=
  (fill 2 pieces (parse text.toList)).run' .undecided

/-- The class of failures that a fault belongs to. -/
def Fault.className : Fault → String
  | unknownName _ => "KeyError"
  | missingPiece _ => "IndexError"
  | subject fault => fault.className
  | _ => "ValueError"

def Fault.message : Fault → String
  | strayOpen => "Single '\x7b' encountered in format string"
  | strayClose => "Single '\x7d' encountered in format string"
  | openInName => "unexpected '\x7b' in field name"
  | unclosed => "expected '\x7d' before end of string"
  | missingConversion => "end of string while looking for conversion specifier"
  | unclosedLayout => "unmatched '\x7b' in format spec"
  | strayAfterConversion => "expected ':' after conversion specifier"
  | tooManyDigits => "Too many decimal digits in format string"
  | automaticAfterManual =>
    "cannot switch from manual field specification to automatic field numbering"
  | manualAfterAutomatic =>
    "cannot switch from automatic field numbering to manual field specification"
  | unknownName name => Text.quoted (String.ofList name)
  | missingPiece index =>
    "Replacement index " ++ Nat.repr index ++ " out of range for positional args tuple"
  | strayAfterBracket => "Only '.' or '[' may follow ']' in format field specifier"
  | unclosedBracket => "Missing ']' in format string"
  | emptySelector => "Empty attribute in format string"
  | unknownConversion c => "Unknown conversion specifier " ++ Layout.shownChar 127 c
  | nestedTooDeep => "Max string recursion exceeded"
  | subject fault => fault.message

end Template
end LetLang
