/-!
# Painted text

On a terminal, parts of a report are bold, and some of them coloured. Painting wraps a text in
escape sequences when colours are on and leaves it alone otherwise, also when it is empty.
-/
namespace LetLang

inductive Ink where
  | plain
  | red
  | magenta
  deriving DecidableEq, Repr

/-- The escape sequence that selects graphic rendition `code`. -/
def Ink.rendition (code : String) : String :=
  "\x1b[" ++ code ++ "m"

/-- The escape sequence that switches to the ink, none for the plain one. -/
def Ink.start : Ink → String
  | .plain => ""
  | .red => rendition "31"
  | .magenta => rendition "35"

/-- Bold text in the given ink. -/
def Ink.paint (ink : Ink) (colours : Bool) (text : String) : String :=
  if colours then rendition "1" ++ ink.start ++ text ++ rendition "0" else text

end LetLang
