import LetLang.Text.Printable
/-!
# Quoted text

A quoted text stands between single quotes, or between double quotes if it holds a single quote
and no double one. The backslash, the chosen quote, line feed, carriage return and tab are escaped
by a backslash, and characters that cannot be printed are written by their code points.
-/
namespace LetLang.Text

/-- The quote around a text: single, unless only a single quote stands in it. -/
def quoteFor (cs : List Char) : Char :=
  if cs.contains '\'' && !cs.contains '"' then '"' else '\''

/-- The lowest `width` hexadecimal digits of `n`. -/
def hexDigits : (width n : Nat) → List Char
  | 0, _ => []
  | width + 1, n => hexDigits width (n / 16) ++ [Nat.digitChar (n % 16)]

/-- A code point in the shortest of the three escape forms. -/
def codeEscape (n : Nat) : List Char :=
  if n < 0x100 then '\\' :: 'x' :: hexDigits 2 n
  else if n < 0x10000 then '\\' :: 'u' :: hexDigits 4 n
  else '\\' :: 'U' :: hexDigits 8 n

def quoteChar (quote c : Char) : List Char :=
  if c = quote ∨ c = '\\' then ['\\', c]
  else if c = '\n' then ['\\', 'n']
  else if c = '\r' then ['\\', 'r']
  else if c = '\t' then ['\\', 't']
  else if isPrintable c then [c]
  else codeEscape c.toNat

/-- The text between quotes, with its special characters escaped. -/
def quoted (text : String) : String :=
  let cs := text.toList
  let quote := quoteFor cs
  String.ofList (quote :: cs.flatMap (quoteChar quote) ++ [quote])

/-- The character, or its code point if it is not one of the first 128. -/
def asciiChar (c : Char) : List Char :=
  if c.toNat < 128 then [c] else codeEscape c.toNat

/-- The text between quotes, in ASCII characters only. -/
def quotedAscii (text : String) : String :=
  String.ofList ((quoted text).toList.flatMap asciiChar)

end LetLang.Text
