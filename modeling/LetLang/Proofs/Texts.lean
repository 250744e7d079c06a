import LetLang.Program
import LetLang.Proofs.Computation
/-!
# Texts as lists of expressions

What a text holds does not depend on what its expressions evaluate to: interpreting a text is
evaluating, one after the other, the expressions that can be read from it, and then meeting the
fault that stopped the reading, if there is one. A session interprets texts one after the other in
one scope; its steps are the expressions that it evaluates, each with its outcome.
-/
namespace LetLang

variable {S V : Type}

/-- Evaluates expressions in order; what stopped their reading comes after them. -/
def inOrder (eval : Expr → ExceptT Fault (StateM S) V) (stop : Option Fault) :
    List Expr → ExceptT Fault (StateM S) (List V)
  | [] =>
    match stop with
    | none => return []
    | some fault => throw fault
  | expr :: exprs => do
    let value ← eval expr
    return value :: (← inOrder eval stop exprs)

namespace Program

/-- The expressions that the stream still holds, and the fault that ends them if one does, for at
most as many of them as `rounds` has elements. -/
def readStream (parsing : Nat) :
    (rounds : List Token) → TokenStream → List Expr × Option Fault
  | rounds, stream =>
    match Reading.on TokenStream.atEnd stream, rounds with
    | (.error fault, _), _ => ([], some fault)
    | (.ok false, stream), _ :: rounds =>
      match Reading.on (Parser.parseNext parsing) stream with
      | (.error fault, _) => ([], some fault)
      | (.ok (expr, _), stream) =>
        let rest := readStream parsing rounds stream
        (expr :: rest.1, rest.2)
    | _, _ => ([], none)

/-- The expressions of a text, and the fault that stops their reading if there is one. -/
def expressions (parsing : Nat) (text : String) : List Expr × Option Fault :=
  let stream := TokenStream.ofText text
  readStream parsing stream.pending stream

theorem runStream_eq_inOrder (limits : Limits) (scope : ScopeId) (rounds : List Token)
    (stream : TokenStream) :
    runStream limits scope rounds stream =
      inOrder (evaluate limits.evaluation · scope) (readStream limits.parsing rounds stream).2
        (readStream limits.parsing rounds stream).1 := by
  induction rounds generalizing stream with
  | nil =>
    rw [runStream.eq_def, readStream.eq_def]
    dsimp only
    rcases Reading.on TokenStream.atEnd stream with ⟨_ | _ | _, _⟩ <;> rfl
  | cons token rounds ih =>
    rw [runStream.eq_def, readStream.eq_def]
    dsimp only
    rcases Reading.on TokenStream.atEnd stream with ⟨_ | _ | _, stream⟩
    · rfl
    · dsimp only
      rcases Reading.on (Parser.parseNext limits.parsing) stream with ⟨_ | ⟨expr, _⟩, stream⟩
      · rfl
      · simp only [inOrder, ih]
    · rfl

/-- A text can be read as a whole before its expressions are evaluated. -/
theorem interpret_eq_inOrder (limits : Limits) (text : String) (scope : ScopeId) :
    interpret limits text scope =
      inOrder (evaluate limits.evaluation · scope) (expressions limits.parsing text).2
        (expressions limits.parsing text).1 :=
  runStream_eq_inOrder limits scope _ _

end Program

/-! ### Sessions -/

/-- The root scope of a new session. -/
def Program.root : ScopeId := (Store.empty.root []).1

/-- The store of a new session, with an empty root scope. -/
def Program.start : Store := (Store.empty.root []).2

/-- An expression that was evaluated, with its result and the state after it. -/
structure Step (S V : Type) where
  expr : Expr
  result : Except Fault V
  after : S

/-- The expressions of a list that are evaluated from a state on: up to the first that fails. -/
def steps (eval : Expr → ExceptT Fault (StateM S) V) : List Expr → S → List (Step S V)
  | [], _ => []
  | expr :: exprs, s =>
    match outcome (eval expr) s with
    | (.ok value, s') => ⟨expr, .ok value, s'⟩ :: steps eval exprs s'
    | (.error fault, s') => [⟨expr, .error fault, s'⟩]

/-- The expressions that are evaluated when texts are interpreted one after the other, each in the
store that the one before has left, whether it failed or not. -/
def Program.session (limits : Limits) (scope : ScopeId) :
    List String → Store → List (Step Store Value)
  | [], _ => []
  | text :: texts, store =>
    steps (evaluate limits.evaluation · scope) (expressions limits.parsing text).1 store ++
      session limits scope texts (outcome (interpret limits text scope) store).2

theorem outcome_inOrder_cons_of_ok {eval : Expr → ExceptT Fault (StateM S) V} {expr : Expr}
    {value : V} {s s' : S} (h : outcome (eval expr) s = (.ok value, s')) (stop : Option Fault)
    (exprs : List Expr) :
    (outcome (inOrder eval stop (expr :: exprs)) s).2 =
      (outcome (inOrder eval stop exprs) s').2 := by
  rw [inOrder, outcome_bind_of_ok h, outcome_bind]
  rcases outcome (inOrder eval stop exprs) s' with ⟨_ | _, _⟩ <;> rfl

theorem outcome_inOrder_cons_of_error {eval : Expr → ExceptT Fault (StateM S) V} {expr : Expr}
    {fault : Fault} {s s' : S} (h : outcome (eval expr) s = (.error fault, s'))
    (stop : Option Fault) (exprs : List Expr) :
    outcome (inOrder eval stop (expr :: exprs)) s = (.error fault, s') := by
  rw [inOrder, outcome_bind_of_error h]

end LetLang
