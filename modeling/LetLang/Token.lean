import LetLang.Text.Numeral
/-!
# Tokens

The kinds of tokens, in the order in which ties between equally long matches are settled, and
tokens with the text they stand for and its place in the source.
-/
namespace LetLang

inductive Kind where
  | plus | minus | star | slash | lparen | rparen | eq | lt | gt | vbar | arrow | comma
  | notWord | letWord | inWord | ifWord | thenWord | elseWord | andWord | orWord
  | trueWord | falseWord
  | int | ident | eof
  deriving DecidableEq, Repr

namespace Kind

/-- Every kind, in the order of declaration. -/
def all : List Kind :=
  [plus, minus, star, slash, lparen, rparen, eq, lt, gt, vbar, arrow, comma,
   notWord, letWord, inWord, ifWord, thenWord, elseWord, andWord, orWord, trueWord, falseWord,
   int, ident, eof]

def name : Kind → String
  | plus => "PLUS" | minus => "MINUS" | star => "STAR" | slash => "SLASH"
  | lparen => "LPAREN" | rparen => "RPAREN" | eq => "EQ" | lt => "LT" | gt => "GT"
  | vbar => "VBAR" | arrow => "ARROW" | comma => "COMMA"
  | notWord => "NOT" | letWord => "LET" | inWord => "IN" | ifWord => "IF"
  | thenWord => "THEN" | elseWord => "ELSE" | andWord => "AND" | orWord => "OR"
  | trueWord => "TRUE" | falseWord => "FALSE"
  | int => "INT" | ident => "IDENT" | eof => "EOF"

/-- The one text of a kind, for the kinds that have only one. -/
def fixedText : Kind → Option String
  | plus => "+" | minus => "-" | star => "*" | slash => "/" | lparen => "(" | rparen => ")"
  | eq => "=" | lt => "<" | gt => ">" | vbar => "|" | arrow => "=>" | comma => ","
  | notWord => "not" | letWord => "let" | inWord => "in" | ifWord => "if"
  | thenWord => "then" | elseWord => "else" | andWord => "and" | orWord => "or"
  | trueWord => "true" | falseWord => "false"
  | int => none | ident => none | eof => none

/-- A regular expression for the texts of a kind; none for the end of the source. -/
def pattern : Kind → Option String
  | plus => "\\+"
  | star => "\\*"
  | lparen => "\\("
  | rparen => "\\)"
  | vbar => "\\|"
  | int => "0|[1-9][0-9]*"
  | ident => "[a-zA-Z_][a-zA-Z0-9_]*"
  | kind => kind.fixedText

/-- The kind with the given name. -/
def ofName? (name : String) : Option Kind :=
  all.find? (·.name = name)

end Kind

/-- A token: its kind, its text and the offset of the text in the source. -/
structure Token where
  kind : Kind
  text : String
  pos : Nat
  deriving DecidableEq, Repr

namespace Token

/-- The end of the source, which stands at its length. -/
def eof (pos : Nat) : Token :=
  { kind := .eof, text := "", pos }

/-- The offset after the last character. -/
def stop (token : Token) : Nat :=
  token.pos + token.text.length

/-- The number that an integer token denotes. -/
def number (token : Token) : Nat :=
  Numeral.value token.text.toList

/-- What a token of an open-ended kind stands for. -/
inductive Value where
  | number (n : Nat)
  | name (text : String)
  deriving DecidableEq, Repr

/-- The number of an integer token, the name of an identifier; other tokens carry no value. -/
def value (token : Token) : Option Value :=
  match token.kind with
  | .int => some (.number token.number)
  | .ident => some (.name token.text)
  | _ => none

/-- What an error message calls the token: its text, or the name of its kind if it has none. -/
def spelling (token : Token) : String :=
  if token.text = "" then token.kind.name else token.text

/-- A short description: the kind, and the text where the kind leaves it open. -/
def describe (token : Token) : String :=
  match token.kind with
  | .int | .ident => "Token(" ++ token.kind.name ++ "(" ++ token.text ++ "))"
  | _ => "Token(" ++ token.kind.name ++ ")"

end Token
end LetLang
