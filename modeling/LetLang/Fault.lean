import LetLang.Operator
import LetLang.Token
/-!
# Faults

What can stop the reading or evaluation of a text: an error of the language, a limit of the
machine, or a token source that has nothing more to give. Values in an error of evaluation appear
by their texts, since a value may be too long to be written at all.
-/
namespace LetLang

/-- The errors of the language, by their causes. -/
inductive LanguageError where
  /-- No token begins with the character at `pos` of the source. -/
  | unexpectedCharacter (source : String) (pos : Nat) (char : Char)
  /-- The token is of none of the expected kinds. -/
  | unexpectedToken (expected : List Kind) (found : Token) (source : String)
  | undefinedIdentifier (name : String)
  /-- The operator is not defined on the two described operands. -/
  | binaryMismatch (op : BinaryOp) (left right : String)
  /-- The operator is not defined on the described operand. -/
  | unaryMismatch (op : UnaryOp) (operand : String)
  /-- The described value decides no condition. -/
  | conditionMismatch (found : String)
  | notAFunction (value : String)
  | divisionByZero (dividend : String)
  /-- Plain data stands where an expression is needed. -/
  | notAnExpression (datum : String)
  deriving DecidableEq, Repr

inductive Fault where
  | language (error : LanguageError)
  /-- Nesting is deeper than the budget. -/
  | recursionLimit
  /-- A numeral of so many digits cannot be read. -/
  | numeralTooLong (digits : Nat)
  /-- A number has too many digits to be written. -/
  | numberTooLong
  /-- The token source was asked for more than it holds. -/
  | exhausted
  deriving DecidableEq, Repr

end LetLang
