import LetLang.Fault
import LetLang.Text.Quoted
/-!
# Reading tokens

Between tokens stands a gap of blanks and comments. After it comes the longest text that belongs
to some kind; of several kinds that match equally far, the first declared one gets it. The tokens
of a text end with the end of the source or with a fault.
-/
namespace LetLang
namespace Lexer

/-! ### Gaps -/

/-- The characters that may stand between tokens outside comments. -/
def isSpace (c : Char) : Bool :=
  c = '\n' || c = '\r' || c = '\t' || c = ' '

def endsLine (c : Char) : Bool :=
  c = '\n' || c = '\r'

/-- The number of characters through the first `*/`, if there is one. -/
def closeWidth : List Char → Option Nat
  | [] => none
  | [_] => none
  | c :: d :: rest =>
    if c = '*' ∧ d = '/' then some 2 else (closeWidth (d :: rest)).map (· + 1)

/-- The width of the comment that the text begins with: to the end of the line after `//`, through
the first `*/` after `/*`. A `/*` that is never closed begins none. -/
def commentWidth : List Char → Option Nat
  | '/' :: '/' :: rest => some ((rest.takeWhile (!endsLine ·)).length + 2)
  | '/' :: '*' :: rest => (closeWidth rest).map (· + 2)
  | _ => none

/-- The width of the one space or comment that the text begins with. -/
def gapItemWidth : List Char → Option Nat
  | [] => none
  | c :: rest => if isSpace c then some 1 else commentWidth (c :: rest)

theorem commentWidth_pos {cs : List Char} {n : Nat} (h : commentWidth cs = some n) : 0 < n := by
  unfold commentWidth at h
  split at h
  · simp only [Option.some.injEq] at h
    omega
  · obtain ⟨m, _, rfl⟩ := Option.map_eq_some_iff.1 h
    omega
  · simp at h

theorem gapItemWidth_pos {cs : List Char} {n : Nat} (h : gapItemWidth cs = some n) :
    0 < n ∧ cs ≠ [] := by
  unfold gapItemWidth at h
  split at h
  · simp at h
  · refine ⟨?_, by simp⟩
    split at h
    · simp only [Option.some.injEq] at h
      omega
    · exact commentWidth_pos h

/-- The width of the gap that the text begins with. -/
def gapWidth (cs : List Char) : Nat :=
  match _h : gapItemWidth cs with
  | none => 0
  | some n => n + gapWidth (cs.drop n)
termination_by cs.length
decreasing_by
  have hpos := gapItemWidth_pos ‹_›
  have := List.length_pos_iff.2 hpos.2
  simp only [List.length_drop]
  omega

/-! ### Longest match -/

def isWordStart (c : Char) : Bool :=
  ('a' ≤ c && c ≤ 'z') || ('A' ≤ c && c ≤ 'Z') || c = '_'

def isWordPart (c : Char) : Bool :=
  isWordStart c || Numeral.isDigit c

/-- The width of the longest text of the kind that `cs` begins with, zero if there is none. -/
def matchWidth (kind : Kind) (cs : List Char) : Nat :=
  match kind with
  | .int =>
    match cs with
    | [] => 0
    | c :: rest =>
      if c = '0' then 1
      else if Numeral.isDigit c then (rest.takeWhile Numeral.isDigit).length + 1
      else 0
  | .ident =>
    match cs with
    | [] => 0
    | c :: rest => if isWordStart c then (rest.takeWhile isWordPart).length + 1 else 0
  | kind =>
    match kind.fixedText with
    | none => 0
    | some text => if text.toList.isPrefixOf cs then text.length else 0

/-- Of a kind and its width, and another one, keeps the wider; the first on a tie. -/
def wider (cs : List Char) (best : Kind × Nat) (kind : Kind) : Kind × Nat :=
  if best.2 < matchWidth kind cs then (kind, matchWidth kind cs) else best

/-- The first kind that matches farthest, and how far; the width is zero if none matches. -/
def longest (cs : List Char) : Kind × Nat :=
  Kind.all.foldl (wider cs) (.eof, 0)

/-! ### Tokens -/

/-- The token at the beginning of `cs`, which stands at `pos` of the source after any gap. -/
def scan (source : String) (pos : Nat) : List Char → Except Fault Token
  | [] => .ok (Token.eof pos)
  | c :: rest =>
    match longest (c :: rest) with
    | (_, 0) => .error (.language (.unexpectedCharacter source pos c))
    | (kind, width + 1) =>
      if kind = .int ∧ Numeral.digitLimit < width + 1 then .error (.numeralTooLong (width + 1))
      else .ok { kind, text := String.ofList (c :: rest.take width), pos }

/-- What is left for a reader of tokens: some tokens and, after them, perhaps a fault. -/
structure Feed where
  tokens : List Token
  ending : Option Fault
  deriving DecidableEq, Repr

def Feed.cons (token : Token) (feed : Feed) : Feed :=
  { feed with tokens := token :: feed.tokens }

theorem scan_text_pos {source : String} {pos : Nat} {cs : List Char} {token : Token}
    (h : scan source pos cs = .ok token) (hk : token.kind ≠ .eof) :
    0 < token.text.length ∧ cs ≠ [] := by
  unfold scan at h
  split at h
  · cases h
    simp [Token.eof] at hk
  · split at h
    · cases h
    · split at h
      · cases h
      · cases h
        simp only [String.length_ofList, List.length_cons, ne_eq, reduceCtorEq, not_false_eq_true,
          and_true]
        omega

/-- The tokens of `cs`, which stands at `pos` of the source, up to its end or the first fault. -/
def tokensFrom (source : String) (pos : Nat) (cs : List Char) : Feed :=
  let code := cs.drop (gapWidth cs)
  match _h : scan source (pos + gapWidth cs) code with
  | .error fault => { tokens := [], ending := some fault }
  | .ok token =>
    if _hk : token.kind = .eof then { tokens := [token], ending := none }
    else (tokensFrom source token.stop (code.drop token.text.length)).cons token
termination_by cs.length
decreasing_by
  have hpos := scan_text_pos ‹_› ‹_›
  have hcode : code.length = cs.length - gapWidth cs := List.length_drop
  have := List.length_pos_iff.2 hpos.2
  simp only [List.length_drop]
  omega

/-- The tokens of a text. -/
def tokenize (text : String) : Feed :=
  tokensFrom text 0 text.toList

end Lexer

/-- A reader that stands at a position of a text. -/
structure Lexer where
  text : String
  pos : Nat
  deriving DecidableEq, Repr

namespace Lexer

def ofText (text : String) : Lexer :=
  { text, pos := 0 }

/-- The next token, or a fault, and the reader after it: past the token, or past the gap before
the end or the fault. -/
def next (lexer : Lexer) : Except Fault Token × Lexer :=
  let rest := lexer.text.toList.drop lexer.pos
  let start := lexer.pos + gapWidth rest
  match scan lexer.text start (rest.drop (gapWidth rest)) with
  | .error fault => (.error fault, { lexer with pos := start })
  | .ok token => (.ok token, { lexer with pos := token.stop })

/-- A one-line summary of a reader. -/
def describe (lexer : Lexer) : String :=
  "Lexer(pos=" ++ Nat.repr lexer.pos ++ ", text=" ++ Text.quoted lexer.text ++ ")"

/-- All tokens of the reader's text, from its beginning. -/
def feed (lexer : Lexer) : Feed :=
  tokenize lexer.text

end Lexer
end LetLang
