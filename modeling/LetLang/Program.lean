import LetLang.Evaluation
import LetLang.Expr.Parser
/-!
# Programs

A program is a text of expressions that are evaluated one after the other in one scope. Each is
read when the one before has been evaluated, so that a fault in the text comes after the effects
of the expressions before it.
-/
namespace LetLang

/-- The budgets for nested productions and nested evaluations. -/
structure Limits where
  parsing : Nat
  evaluation : Nat
  deriving DecidableEq, Repr

def Limits.standard : Limits :=
  { parsing := Parser.depthLimit, evaluation := evaluationLimit }

/-- Runs a reader on a stream. -/
def Reading.on {α : Type} (reading : Reading α) (stream : TokenStream) :
    Except Fault α × TokenStream :=
  reading.run.run stream

namespace Program

/-- The values of the expressions that the stream still holds, for at most as many of them as
`rounds` has elements; each takes a token at least. -/
def runStream (limits : Limits) (scope : ScopeId) :
    (rounds : List Token) → TokenStream → Evaluating (List Value)
  | rounds, stream =>
    match Reading.on TokenStream.atEnd stream, rounds with
    | (.error fault, _), _ => throw fault
    | (.ok false, stream), _ :: rounds =>
      match Reading.on (Parser.parseNext limits.parsing) stream with
      | (.error fault, _) => throw fault
      | (.ok (expr, _), stream) => do
        let value ← evaluate limits.evaluation expr scope
        return value :: (← runStream limits scope rounds stream)
    | _, _ => return []

/-- The values of the expressions of a text, evaluated in a scope. -/
def interpret (limits : Limits) (text : String) (scope : ScopeId) : Evaluating (List Value) :=
  let stream := TokenStream.ofText text
  runStream limits scope stream.pending stream

end Program
end LetLang
