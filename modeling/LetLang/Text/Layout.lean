import LetLang.Text.Digit
import LetLang.Text.Quoted
/-!
# Layouts

A layout says how a value is set in a field: `[[fill]align][sign][z][#][0][width][grouping][.limit]`
and a letter for its kind. Texts have the letter `s`; signs, grouping and what else is for numbers
can be written and is refused. A text is cut to the limit and then filled up to the width, however
wide the field is: that memory may not suffice for it is set aside.
-/
namespace LetLang

structure Layout where
  fill : Char
  /-- One of `<`, `>`, `^` and `=`. -/
  align : Char
  sign : Option Char
  /-- Whether a negative zero is to lose its sign. -/
  plainZero : Bool
  alternate : Bool
  width : Option Nat
  grouping : Option Char
  limit : Option Nat
  kind : Char
  deriving DecidableEq, Repr

namespace Layout

/-- What a layout is for, which decides what it says where nothing is written. -/
inductive Target where
  | text
  | number
  | truth
  deriving DecidableEq, Repr

/-- Why a value cannot be laid out. -/
inductive Fault where
  | tooManyDigits
  | bothGroupings
  | missingLimit
  | invalid (layout : List Char) (target : Target)
  | groupedKind (grouping kind : Char)
  | unknownKind (kind : Char) (target : Target)
  | signed (sign : Char)
  | plainZero
  | alternate
  | numericAlign
  | limitedInteger
  | plainZeroInteger
  | signedCharacter
  | alternateCharacter
  | noCharacter
  | limitTooBig
  deriving DecidableEq, Repr

def Target.className : Target → String
  | text => "str"
  | number => "int"
  | truth => "bool"

/-- The kind of value, if none is given. -/
def Target.kind : Target → Char
  | text => 's'
  | _ => 'd'

/-- Texts stand at the left of their field, numbers at the right. -/
def Target.align : Target → Char
  | text => '<'
  | _ => '>'

/-- The alignment that comes with a zero before the width: numbers are filled after their sign. -/
def Target.zeroAlign : Target → Char
  | text => '<'
  | _ => '='

/-- A character in a message: itself if it is one after the space and below `bound`, its code point
otherwise. -/
def shownChar (bound : Nat) (c : Char) : String :=
  if 32 < c.toNat ∧ c.toNat < bound then String.singleton c
  else "\\x" ++ String.ofList (Nat.toDigits 16 c.toNat)

def Fault.message : Fault → String
  | tooManyDigits => "Too many decimal digits in format string"
  | bothGroupings => "Cannot specify both ',' and '_'."
  | missingLimit => "Format specifier missing precision"
  | invalid layout target =>
    "Invalid format specifier '" ++ String.ofList layout ++ "' for object of type '" ++
      target.className ++ "'"
  | groupedKind grouping kind =>
    "Cannot specify '" ++ String.singleton grouping ++ "' with '" ++ shownChar 128 kind ++ "'."
  | unknownKind kind target =>
    "Unknown format code '" ++ shownChar 128 kind ++ "' for object of type '" ++
      target.className ++ "'"
  | signed sign =>
    (if sign = ' ' then "Space" else "Sign") ++ " not allowed in string format specifier"
  | plainZero => "Negative zero coercion (z) not allowed in string format specifier"
  | alternate => "Alternate form (#) not allowed in string format specifier"
  | numericAlign => "'=' alignment not allowed in string format specifier"
  | limitedInteger => "Precision not allowed in integer format specifier"
  | plainZeroInteger => "Negative zero coercion (z) not allowed in integer format specifier"
  | signedCharacter => "Sign not allowed with integer format specifier 'c'"
  | alternateCharacter => "Alternate form (#) not allowed with integer format specifier 'c'"
  | noCharacter => "%c arg not in range(0x110000)"
  | limitTooBig => "precision too big"

/-- The class of failures that a fault belongs to. -/
def Fault.className : Fault → String
  | noCharacter => "OverflowError"
  | _ => "ValueError"

/-! ### Reading -/

def isAlign (c : Char) : Bool :=
  c = '<' || c = '>' || c = '=' || c = '^'

def isSign (c : Char) : Bool :=
  c = ' ' || c = '+' || c = '-'

/-- Takes the first character if it is of the given sort. -/
def takeIf (sort : Char → Bool) : List Char → Option Char × List Char
  | [] => (none, [])
  | c :: rest => if sort c then (some c, rest) else (none, c :: rest)

/-- The fill character and the alignment, as far as they are given. -/
def readAlign : List Char → Option Char × Option Char × List Char
  | fill :: align :: rest =>
    if isAlign align then (some fill, some align, rest)
    else (none, takeIf isAlign (fill :: align :: rest))
  | cs => (none, takeIf isAlign cs)

/-- A number, if one is given. -/
def readNumber (cs : List Char) : Except Fault (Option Nat × List Char) :=
  match Text.readIndex? 0 cs with
  | none => .error .tooManyDigits
  | some (n, rest) => .ok (if rest.length < cs.length then some n else none, rest)

/-- The mark between groups of digits, of which only one may be given. -/
def readGrouping (cs : List Char) : Except Fault (Option Char × List Char) :=
  match cs with
  | ',' :: '_' :: _ => .error .bothGroupings
  | '_' :: ',' :: _ => .error .bothGroupings
  | ',' :: rest => .ok (some ',', rest)
  | '_' :: rest => .ok (some '_', rest)
  | cs => .ok (none, cs)

/-- The greatest length, after a point. -/
def readLimit (cs : List Char) : Except Fault (Option Nat × List Char) :=
  match cs with
  | '.' :: rest =>
    match readNumber rest with
    | .error fault => .error fault
    | .ok (none, _) => .error .missingLimit
    | .ok (limit, rest) => .ok (limit, rest)
  | cs => .ok (none, cs)

/-- Whether digits can be grouped in a value of the kind, by the given mark. -/
def canGroup (grouping kind : Char) : Bool :=
  "deEfFgG%\x00".toList.contains kind || (grouping = '_' && "boxX".toList.contains kind)

/-- The kind of value, which is the last thing in a layout. -/
def readKind (target : Target) (layout : List Char) (grouping : Option Char) :
    List Char → Except Fault Char
  | _ :: _ :: _ => .error (.invalid layout target)
  | cs =>
    let kind := cs.head?.getD target.kind
    match grouping with
    | some grouping =>
      if canGroup grouping kind then .ok kind else .error (.groupedKind grouping kind)
    | none => .ok kind

def parse (target : Target) (layout : List Char) : Except Fault Layout := do
  let (fill, align, rest) := readAlign layout
  let (sign, rest) := takeIf isSign rest
  let (plainZero, rest) := takeIf (· = 'z') rest
  let (alternate, rest) := takeIf (· = '#') rest
  let (padding, rest) := if fill.isSome then (none, rest) else takeIf (· = '0') rest
  let (width, rest) ← readNumber rest
  let (grouping, rest) ← readGrouping rest
  let (limit, rest) ← readLimit rest
  let kind ← readKind target layout grouping rest
  return {
    fill := (fill.or padding).getD ' '
    align := align.getD (if padding.isSome then target.zeroAlign else target.align)
    sign
    plainZero := plainZero.isSome
    alternate := alternate.isSome
    width
    grouping
    limit
    kind }

/-! ### Setting a text -/

/-- What in a layout is not for texts, the first such thing in the order of the messages. -/
def refusal? (layout : Layout) : Option Fault :=
  if layout.kind ≠ 's' then some (.unknownKind layout.kind .text)
  else
    match layout.sign with
    | some sign => some (.signed sign)
    | none =>
      if layout.plainZero then some .plainZero
      else if layout.alternate then some .alternate
      else if layout.align = '=' then some .numericAlign
      else none

/-- The number of fill characters before a text, out of `free` of them. -/
def before (layout : Layout) (free : Nat) : Nat :=
  if layout.align = '>' then free else if layout.align = '^' then free / 2 else 0

/-- A text cut to the limit and filled up to the width. -/
def set (layout : Layout) (text : List Char) : List Char :=
  let text := match layout.limit with
    | some limit => text.take limit
    | none => text
  let free := layout.width.getD 0 - text.length
  List.replicate (layout.before free) layout.fill ++ text ++
    List.replicate (free - layout.before free) layout.fill

/-- Lays out a text. An empty layout leaves it as it is. -/
def apply (layout : List Char) (text : String) : Except Fault String :=
  if layout = [] then .ok text
  else
    match parse .text layout with
    | .error fault => .error fault
    | .ok layout =>
      match layout.refusal? with
      | some fault => .error fault
      | none => .ok (String.ofList (layout.set text.toList))

end Layout
end LetLang
