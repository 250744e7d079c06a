/-!
# Blank characters

The blank characters of a line are the horizontal and vertical spaces of Unicode, the line and
paragraph separators, and the four information separators. Stripping removes them at the ends.
-/
namespace LetLang.Text

/-- Code point ranges of the blank characters, in order. -/
def blankRanges : List (Nat × Nat) :=
  [(0x09, 0x0D), (0x1C, 0x20), (0x85, 0x85), (0xA0, 0xA0), (0x1680, 0x1680), (0x2000, 0x200A),
   (0x2028, 0x2029), (0x202F, 0x202F), (0x205F, 0x205F), (0x3000, 0x3000)]

def isBlank (c : Char) : Bool :=
  blankRanges.any fun range => range.1 ≤ c.toNat && c.toNat ≤ range.2

def stripLeft (cs : List Char) : List Char :=
  cs.dropWhile isBlank

/-- The characters up to the last one that `drop` does not hold of. -/
def dropWhileRight (drop : Char → Bool) (cs : List Char) : List Char :=
  (cs.reverse.dropWhile drop).reverse

def stripRight (cs : List Char) : List Char :=
  dropWhileRight isBlank cs

def strip (cs : List Char) : List Char :=
  stripRight (stripLeft cs)

/-- The text without blanks at its ends. -/
def stripped (text : String) : String :=
  String.ofList (strip text.toList)

/-- Whether the text has no character that is not blank. -/
def allBlank (text : String) : Bool :=
  text.toList.all isBlank

end LetLang.Text
