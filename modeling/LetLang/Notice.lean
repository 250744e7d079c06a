import LetLang.Fault
import LetLang.Text.Line
import LetLang.Text.Paint
/-!
# Notices

A notice is an error or warning in the form in which it is shown: a message whose pieces are
highlighted and, where the offending part of a source is known, the line that holds it with the
part underlined.
-/
namespace LetLang

/-- A part of a message: words of its own, or a piece of something that it is about. -/
inductive Segment where
  | words (text : String)
  | piece (text : String)
  deriving DecidableEq, Repr

namespace Segment

def text : Segment → String
  | words text => text
  | piece text => text

/-- The text, in bold if it is a piece. -/
def highlighted (colours : Bool) : Segment → String
  | words text => text
  | piece text => Ink.plain.paint colours text

/-- The text with a pair of braces in place of a piece. -/
def pattern : Segment → String
  | words text => text
  | piece _ => "\x7b\x7d"

def piece? : Segment → Option String
  | words _ => none
  | piece text => some text

end Segment

structure Notice where
  wording : List Segment
  source : String
  /-- The offending part of the source reaches from `start` to before `stop`. -/
  start : Int
  stop : Int
  /-- Whether the offending part is to be shown. -/
  diagnosed : Bool
  /-- Whether the fault lies with the program and not with its user. -/
  internal : Bool
  deriving DecidableEq, Repr

namespace Notice

/-- A notice without a source. -/
def plain (wording : List Segment) : Notice :=
  { wording, source := "", start := 0, stop := 0, diagnosed := false, internal := false }

/-- A notice about a part of a source; nothing is to be shown of an empty one. -/
def about (wording : List Segment) (source : String) (start stop : Int) : Notice :=
  { wording, source, start, stop, diagnosed := source ≠ "", internal := false }

/-- Where an offending part stops: `-1` stands for the end of the source. -/
def stopIn (source : String) (stop : Int) : Int :=
  if stop = -1 then source.length else stop

def message (notice : Notice) : String :=
  String.join (notice.wording.map Segment.text)

/-- The message with its pieces in bold. -/
def highlighted (colours : Bool) (notice : Notice) : String :=
  String.join (notice.wording.map (Segment.highlighted colours))

/-- The message with a pair of braces in place of each piece. -/
def pattern (notice : Notice) : String :=
  String.join (notice.wording.map Segment.pattern)

def pieces (notice : Notice) : List String :=
  notice.wording.filterMap Segment.piece?

def blanks (n : Nat) : String :=
  String.ofList (List.replicate n ' ')

/-- The mark under a part of the given width: a caret and a tail. -/
def mark (width : Nat) : String :=
  String.ofList ('^' :: List.replicate (width - 1) '~')

/-- The source line of the offending part, and the part underlined. The part ends with the line. -/
def diagnosis (colours : Bool) (ink : Ink) (notice : Notice) : String :=
  let location := Text.locate notice.source notice.start
  let line := location.line.toList
  let column := location.column
  let stop := min (column + (max (notice.stop - notice.start) 1).toNat) line.length
  let part := (line.take stop).drop column
  "  " ++ String.ofList (line.take column) ++ ink.paint colours (String.ofList part) ++
    String.ofList (line.drop stop) ++ "\n" ++
    "  " ++ blanks column ++ ink.paint colours (mark (stop - column))

/-- What is said of a character that begins no token. -/
def characterWording (char position : String) : List Segment :=
  [.words "unexpected character '", .piece char, .words "' at position ", .piece position]

/-- The notice about the character at a position, which counts from the end if it is negative;
none outside the source. -/
def ofCharacter? (source : String) (pos : Int) : Option (Char × Notice) :=
  let cs := source.toList
  let index := if pos < 0 then pos + cs.length else pos
  if index < 0 then none
  else
    cs[index.toNat]?.map fun char =>
      (char, about (characterWording (String.singleton char) (Numeral.text pos)) source pos
        (stopIn source (pos + 1)))

end Notice

/-- What is said of an error of the language. -/
def LanguageError.wording : LanguageError → List Segment
  | unexpectedCharacter _ pos char =>
    Notice.characterWording (String.singleton char) (Nat.repr pos)
  | unexpectedToken expected found _ =>
    [.words "expected ", .piece (", ".intercalate (expected.map Kind.name)),
      .words " but found '", .piece found.spelling,
      .words "' at position ", .piece (Nat.repr found.pos)]
  | undefinedIdentifier name =>
    [.words "identifier '", .piece name, .words "' is not defined"]
  | binaryMismatch op left right =>
    [.words "cannot apply '", .piece op.text, .words "' to ", .piece left, .words " and ",
      .piece right]
  | unaryMismatch op operand =>
    [.words "cannot apply '", .piece op.text, .words "' to ", .piece operand]
  | conditionMismatch found =>
    [.words "if condition must be Bool, but found ", .piece found]
  | notAFunction value => [.words "cannot apply '", .piece value, .words "': not a function"]
  | divisionByZero dividend => [.words "cannot divide '", .piece dividend, .words "' by zero"]
  | notAnExpression datum => [.words "cannot evaluate '", .piece datum, .words "'"]

/-- How an error of the language is shown; only the errors of reading are about a source. -/
def LanguageError.notice (error : LanguageError) : Notice :=
  match error with
  | unexpectedCharacter source pos _ => .about error.wording source pos (pos + 1)
  | unexpectedToken _ found source =>
    .about error.wording source found.pos (found.pos + max found.text.length 1)
  | _ => .plain error.wording

end LetLang
