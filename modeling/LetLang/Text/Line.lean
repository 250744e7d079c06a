/-!
# Lines and locations

Only the line feed divides lines. A location names the line that holds an offset, its index from
zero and the column of the offset in it; offsets outside the text are moved to its ends.
-/
namespace LetLang.Text

structure Location where
  line : String
  index : Nat
  column : Nat
  deriving DecidableEq, Repr

/-- Carriage returns, alone or before a line feed, become line feeds. -/
def unifyLineBreaks : List Char → List Char
  | [] => []
  | '\r' :: '\n' :: rest => '\n' :: unifyLineBreaks rest
  | '\r' :: rest => '\n' :: unifyLineBreaks rest
  | c :: rest => c :: unifyLineBreaks rest

/-- The lines that a text holds: a line feed ends a line, and the last line may lack it. -/
def heldLines : List Char → List (List Char)
  | [] => []
  | c :: rest =>
    if c = '\n' then [] :: heldLines rest
    else
      match heldLines rest with
      | [] => [[c]]
      | line :: lines => (c :: line) :: lines

/-- An offset moved into the text. -/
def clamp (offset : Int) (length : Nat) : Nat :=
  min offset.toNat length

/-- Where an offset stands in a text. -/
def locate (source : String) (offset : Int) : Location :=
  let cs := source.toList
  let here := clamp offset cs.length
  let before := cs.take here
  let head := (before.reverse.takeWhile (· ≠ '\n')).reverse
  let tail := (cs.drop here).takeWhile (· ≠ '\n')
  { line := String.ofList (head ++ tail)
    index := before.count '\n'
    column := head.length }

end LetLang.Text
