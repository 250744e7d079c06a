/-!
# Decimal numerals

Numbers are unbounded, their decimal texts are not: a numeral of more than `digitLimit` digits is
neither read nor written.
-/
namespace LetLang.Numeral

/-- The most digits that a numeral may have. -/
def digitLimit : Nat := 4300

/-- The least number that has too many digits to be written. -/
def bound : Nat := Nat.pow 10 digitLimit

def isDigit (c : Char) : Bool :=
  '0' ≤ c && c ≤ '9'

/-- The number that a string of digits denotes. -/
def value (digits : List Char) : Nat :=
  digits.foldl (fun n c => 10 * n + (c.toNat - '0'.toNat)) 0

/-- The decimal text of an integer, with a sign only if it is negative. -/
def text (n : Int) : String :=
  if n < 0 then "-" ++ Nat.repr n.natAbs else Nat.repr n.natAbs

/-- The decimal text of an integer, unless it would be longer than the limit. -/
def text? (n : Int) : Option String :=
  if n.natAbs < bound then some (text n) else none

end LetLang.Numeral
