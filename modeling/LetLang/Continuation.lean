import LetLang.Text.Blank
/-!
# Continuation lines

A line that ends with a backslash, blanks after it aside, is continued by the next one. The
backslash and what follows it are dropped, and the blanks at the beginning of a continuing line
become one space. Line breaks stay, so that lines keep their numbers.
-/
namespace LetLang.Continuation

/-- The mark at the end of a line that the next one continues. -/
def mark : Char := '\\'

/-- A line without its line break and continuation mark, and whether the next line continues it.
`continuing` tells whether it continues the line before. -/
def prepare (line : List Char) (continuing : Bool) : List Char × Bool :=
  let bare := Text.dropWhileRight (fun c => c = '\r' || c = '\n') line
  let bare := if continuing then ' ' :: Text.stripLeft bare else bare
  let trimmed := Text.stripRight bare
  if trimmed.getLast? = some mark then (trimmed.dropLast, true) else (bare, false)

/-- Prepares lines one after the other, and tells whether a further line is asked for. -/
def prepareAll : (continuing : Bool) → List (List Char) → List (List Char) × Bool
  | continuing, [] => ([], continuing)
  | continuing, line :: lines =>
    let (first, continued) := prepare line continuing
    let (rest, unfinished) := prepareAll continued lines
    (first :: rest, unfinished)

end LetLang.Continuation
