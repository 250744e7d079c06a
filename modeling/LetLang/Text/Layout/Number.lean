import LetLang.Text.Layout
/-!
# Layouts of numbers

A number is written in one of several bases, as the character that it is the code point of, or with
decimals, an exponent or as a percentage. Its digits may stand in groups, and zeros that fill the
field are grouped with them.
-/
namespace LetLang.Layout

/-- The parts of a written number. -/
structure Figure where
  sign : List Char
  /-- What stands before the digits to show the base. -/
  mark : List Char
  digits : List Char
  /-- What stands after the digits that can be grouped. -/
  rest : List Char
  deriving DecidableEq, Repr

/-! ### Groups of digits -/

/-- Puts a mark between groups of `size` digits, counted from the end. -/
def insertMarks (mark : Char) (size : Nat) : List Char → List Char
  | [] => []
  | c :: rest =>
    if rest ≠ [] ∧ rest.length % size = 0 then c :: mark :: insertMarks mark size rest
    else c :: insertMarks mark size rest

/-- Fills digits up with zeros until there are `count` of them. -/
def zeroFilled (count : Nat) (digits : List Char) : List Char :=
  List.replicate (count - digits.length) '0' ++ digits

/-- The digits in groups, filled up with zeros to a width of at least `least`. -/
def grouped (group : Option (Char × Nat)) (least : Nat) (digits : List Char) : List Char :=
  match group with
  | none => zeroFilled least digits
  | some (mark, size) =>
    insertMarks mark size (zeroFilled (least - (least - 1) / (size + 1)) digits)

/-- The mark and the size of groups: four digits in the bases that are powers of two, else
three. -/
def group? (layout : Layout) : Option (Char × Nat) :=
  layout.grouping.map (·, if "boxX".toList.contains layout.kind then 4 else 3)

/-- A figure in its field. -/
def setFigure (layout : Layout) (figure : Figure) : List Char :=
  let head := figure.sign ++ figure.mark
  let width := layout.width.getD 0
  let others := head.length + figure.rest.length
  let least := if layout.fill = '0' && layout.align = '=' then width - others else 0
  let body := grouped layout.group? least figure.digits ++ figure.rest
  let free := width - (head.length + body.length)
  if layout.align = '=' then head ++ List.replicate free layout.fill ++ body
  else
    List.replicate (layout.before free) layout.fill ++ head ++ body ++
      List.replicate (free - layout.before free) layout.fill

/-- What stands before a number that is not negative: a plus sign or a space, if it is asked for. -/
def signOf (layout : Layout) : List Char :=
  match layout.sign with
  | some '+' => ['+']
  | some ' ' => [' ']
  | _ => []

/-! ### Integers -/

/-- A number in a base, with the mark of the base in the alternate form. -/
def inBase (layout : Layout) (base : Nat) (mark : List Char) (n : Nat) : Figure where
  sign := layout.signOf
  mark := if layout.alternate then mark else []
  digits := Nat.toDigits base n
  rest := []

/-- The character that a number is the code point of. -/
def character (layout : Layout) (n : Nat) : Except Fault Figure :=
  if layout.sign.isSome then .error .signedCharacter
  else if layout.alternate then .error .alternateCharacter
  else if 0x10FFFF < n then .error .noCharacter
  else .ok { sign := [], mark := [], digits := [Char.ofNat n], rest := [] }

def upper (figure : Figure) : Figure :=
  { figure with
    mark := figure.mark.map Char.toUpper
    digits := figure.digits.map Char.toUpper
    rest := figure.rest.map Char.toUpper }

/-! ### Decimals -/

/-- The quotient to the nearest integer, a half to the even one. -/
def roundDiv (n d : Nat) : Nat :=
  let q := n / d
  let twice := 2 * (n % d)
  if d < twice || (d = twice && q % 2 = 1) then q + 1 else q

/-- A number as `count` significant digits and an exponent of ten. -/
def significant (count n : Nat) : List Char × Nat :=
  let digits := Nat.toDigits 10 n
  if digits.length ≤ count then
    (digits ++ List.replicate (count - digits.length) '0', digits.length - 1)
  else
    let rounded := Nat.toDigits 10 (roundDiv n (Nat.pow 10 (digits.length - count)))
    (rounded.take count, digits.length - 1 + (rounded.length - count))

/-- The decimals after a point; without any, the point stands only in the alternate form. -/
def decimals (layout : Layout) (digits : List Char) : List Char :=
  if digits = [] && !layout.alternate then [] else '.' :: digits

def exponent (n : Nat) : List Char :=
  'e' :: '+' :: zeroFilled 2 (Nat.toDigits 10 n)

def fixed (layout : Layout) (limit n : Nat) (ending : List Char) : Figure where
  sign := layout.signOf
  mark := []
  digits := Nat.toDigits 10 n
  rest := layout.decimals (List.replicate limit '0') ++ ending

def scientific (layout : Layout) (limit n : Nat) : Figure :=
  let (digits, power) := significant (limit + 1) n
  { sign := layout.signOf
    mark := []
    digits := digits.take 1
    rest := layout.decimals (digits.drop 1) ++ exponent power }

/-- A number with `count` significant digits, with an exponent if that is greater than they can
show. Zeros at the end are left out, except in the alternate form. -/
def general (layout : Layout) (count n : Nat) : Figure :=
  let (digits, power) := significant count n
  let kept (after : List Char) :=
    if layout.alternate then after else (after.reverse.dropWhile (· = '0')).reverse
  if power < count then
    { sign := layout.signOf
      mark := []
      digits := digits.take (power + 1)
      rest := layout.decimals (kept (digits.drop (power + 1))) }
  else
    { sign := layout.signOf
      mark := []
      digits := digits.take 1
      rest := layout.decimals (kept (digits.drop 1)) ++ exponent power }

/-! ### Choosing the form -/

/-- The greatest number of decimals that can be asked for. -/
def limitBound : Nat := Nat.pow 2 31 - 1

def integerFigure (layout : Layout) (n : Nat) : Except Fault Figure :=
  if layout.limit.isSome then .error .limitedInteger
  else if layout.plainZero then .error .plainZeroInteger
  else
    match layout.kind with
    | 'b' => .ok (layout.inBase 2 ['0', 'b'] n)
    | 'o' => .ok (layout.inBase 8 ['0', 'o'] n)
    | 'x' => .ok (layout.inBase 16 ['0', 'x'] n)
    | 'X' => .ok (upper (layout.inBase 16 ['0', 'x'] n))
    | 'c' => layout.character n
    | _ => .ok (layout.inBase 10 [] n)

def decimalFigure (layout : Layout) (n : Nat) : Except Fault Figure :=
  let limit := layout.limit.getD 6
  if limitBound < limit then .error .limitTooBig
  else
    match layout.kind with
    | 'e' => .ok (layout.scientific limit n)
    | 'E' => .ok (upper (layout.scientific limit n))
    | 'g' => .ok (layout.general (max limit 1) n)
    | 'G' => .ok (upper (layout.general (max limit 1) n))
    | '%' => .ok (layout.fixed limit (100 * n) ['%'])
    | _ => .ok (layout.fixed limit n [])

/-- The figure of a number by the kind of its layout. -/
def figure (layout : Layout) (target : Target) (n : Nat) : Except Fault Figure :=
  if "bcdnoxX".toList.contains layout.kind then layout.integerFigure n
  else if "eEfFgG%".toList.contains layout.kind then layout.decimalFigure n
  else .error (.unknownKind layout.kind target)

/-- Lays out a number, or a truth value as the number that it is. -/
def applyNumber (target : Target) (layout : List Char) (n : Nat) : Except Fault String :=
  match parse target layout with
  | .error fault => .error fault
  | .ok layout =>
    match layout.figure target n with
    | .error fault => .error fault
    | .ok figure => .ok (String.ofList (layout.setFigure figure))

end LetLang.Layout
