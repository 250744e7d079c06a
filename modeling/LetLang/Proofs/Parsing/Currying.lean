import LetLang.Proofs.Grammar.Dominance
import LetLang.Proofs.Parsing.Sources
import LetLang.Proofs.Texts.Layouts
/-!
# Several parameters and several arguments

A function literal with several parameters is read as one with a literal of one parameter in each
body, and a call with several arguments as one call after the other. The nested literals take more
of the budget, two units for each, and the calls do not.
-/
namespace LetLang

/-- The token without its place. -/
def Token.unplaced : Token → Token :=
  Token.placed fun _ => 0

/-- The stream holds these tokens, wherever they stand, and ends as given. -/
def TokenStream.Holds (stream : TokenStream) (tokens : List Token) (ending : Option Fault) : Prop :=
  stream.pending.map Token.unplaced = tokens.map Token.unplaced ∧
    stream.feed.ending.map Fault.unplaced = ending.map Fault.unplaced

instance (stream : TokenStream) (tokens : List Token) (ending : Option Fault) :
    Decidable (stream.Holds tokens ending) :=
  inferInstanceAs (Decidable (_ ∧ _))

namespace Parser

open TokenStream

/-! ### Readings that agree but for places -/

/-- The same tree was read, and the same tokens are left, or there is the same fault. -/
inductive SameReading :
    Except Fault Expr × TokenStream → Except Fault Expr × TokenStream → Prop
  | ok (e : Expr) {s s' : TokenStream} (h : s'.Holds s.pending s.feed.ending) :
      SameReading (.ok e, s) (.ok e, s')
  | error {fault fault' : Fault} (h : fault'.unplaced = fault.unplaced) (s s' : TokenStream) :
      SameReading (.error fault, s) (.error fault', s')

variable {first second third : Except Fault Expr × TokenStream}

theorem SameReading.symm (h : SameReading first second) : SameReading second first := by
  cases h with
  | ok e h => exact .ok e ⟨h.1.symm, h.2.symm⟩
  | error h => exact .error h.symm _ _

theorem SameReading.trans (h : SameReading first second) (h' : SameReading second third) :
    SameReading first third := by
  cases h with
  | ok e h =>
    cases h' with
    | ok _ h' => exact .ok e ⟨h'.1.trans h.1, h'.2.trans h.2⟩
  | error h =>
    cases h' with
    | error h' => exact .error (h'.trans h) _ _

theorem SameReading.map (f : Expr → Expr) (h : SameReading first second) :
    SameReading (first.map (Except.map f) id) (second.map (Except.map f) id) := by
  cases h with
  | ok e h => exact .ok (f e) h
  | error h => exact .error h _ _

theorem sameReading_of_moved {common common' : Except Fault Expr × TokenStream}
    (h : MovedOutcome (fun _ => 0) "" Eq first common)
    (h' : MovedOutcome (fun _ => 0) "" Eq second common') (heq : common = common') :
    SameReading first second := by
  cases h with
  | ok htree hstream =>
    cases h' with
    | error => cases heq
    | ok htree' hstream' =>
      cases heq
      subst htree htree'
      exact .ok _ ⟨hstream'.pending_eq.symm.trans hstream.pending_eq,
        hstream'.ending_eq.symm.trans hstream.ending_eq⟩
  | error =>
    cases h' with
    | ok => cases heq
    | error => exact .error (Except.error.inj (Prod.mk.inj heq).1).symm _ _

/-- Streams with the same tokens are read alike. -/
theorem sameReading_read {s s' : TokenStream} (h : s'.Holds s.pending s.feed.ending) (budget : Nat)
    (production : Production) :
    SameReading (outcome (read budget production) s) (outcome (read budget production) s') := by
  let common := ofFeed "" ⟨s.pending.map Token.unplaced, s.feed.ending.map Fault.unplaced⟩
  have hmoved : Moved (fun _ => 0) "" s common := rfl
  have hmoved' : Moved (fun _ => 0) "" s' common := by
    have hview : common.view =
        (s'.pending.map Token.unplaced, s'.feed.ending.map Fault.unplaced, "") := by
      rw [h.1, h.2]
      rfl
    exact hview
  exact sameReading_of_moved (alike_read budget production s common hmoved)
    (alike_read budget production s' common hmoved') rfl

/-! ### Parameters -/

/-- What comes before the body of a function literal with the given parameters. -/
inductive Header : List String → List Token → Prop
  | mk {left right arrow : Token} {names p : List Token} (hleft : left.kind = .vbar)
      (hnames : ∀ name ∈ names, name.kind = .ident) (hparams : CommaJoined (names.map ([·])) p)
      (hright : right.kind = .vbar) (harrow : arrow.kind = .arrow) :
      Header (names.map (·.text)) (left :: (p ++ [right, arrow]))

/-- What comes before the innermost body if there is one literal for each parameter. -/
inductive Headers : List String → List Token → Prop
  | nil : Headers [] []
  | cons {name : String} {names : List String} {p q : List Token} (h : Header [name] p)
      (hrest : Headers names q) : Headers (name :: names) (p ++ q)

/-- The phrase stands for the item, and neither a comma nor the closing token goes on with it. -/
def Delimited {α : Type} (R : List Token → α → Set Kind → Prop) (close : Kind) (part : List Token)
    (item : α) : Prop :=
  ∃ opens, R part item opens ∧ close ∉ opens ∧ .comma ∉ opens

/-- The items of a list with commas are those that the list was made of. -/
theorem CommaJoined.items {α : Type} {R : List Token → α → Set Kind → Prop} {close : Kind}
    {parts : List (List Token)} {items : List α} {p : List Token} (h : CommaJoined parts p)
    (hne : parts ≠ []) (hparts : List.Forall₂ (Delimited R close) parts items) :
    Items R close p items := by
  induction hparts generalizing p with
  | nil => exact absurd rfl hne
  | @cons part item parts items hpart hparts ih =>
    obtain ⟨opens, hpart, hclose, hcomma⟩ := hpart
    cases h with
    | single =>
      cases hparts
      exact .single hpart hclose
    | cons hkind hrest => exact .cons hpart hkind hcomma (ih hrest (by simp))

/-- The part of a function literal before its body. -/
def header : Reading (List String) := do
  let _ ← expect [.vbar]
  let params ← enclosed .vbar (nextIs [.ident]) identifier
  let _ ← expect [.vbar]
  let _ ← expect [.arrow]
  return params

theorem step_fnExpr (read : Production → Reading Expr) :
    step read .fnExpr = header >>= fun params => curried params <$> read .expr := by
  simp [step, header]

theorem takes_header {names : List String} {p rest : List Token} (h : Header names p) :
    Takes header p names rest := by
  cases h with
  | @mk left right arrow names p hleft hnames hparams hright harrow =>
    have hitems : Enclosed Name .vbar p (names.map (·.text)) := by
      cases names with
      | nil =>
        cases hparams
        exact .none
      | cons name names =>
        refine .some (hparams.items (by simp) ?_)
        rw [List.forall₂_map_left_iff, List.forall₂_map_right_iff, List.forall₂_same]
        exact fun name hname => ⟨∅, .mk (hnames name hname), by simp, by simp⟩
    refine (takes_expect_singleton hleft (by decide)).cons_bind ?_
    refine Takes.bind (q := [right, arrow]) (parameters_complete hitems hright) ?_
    refine (takes_expect_singleton hright (by decide)).cons_bind ?_
    exact (takes_expect_singleton harrow (by decide)).cons_bind takes_pure

/-- A literal is read as its body, in which two units of the budget are gone. -/
theorem Header.read_eq {names : List String} {p body : List Token} (h : Header names p)
    {s : TokenStream} (hs : s.pending = p ++ body) :
    ∃ t : TokenStream, t.view = (body, s.feed.ending, s.source) ∧ ∀ budget,
      outcome (read (budget + 2) .expr) s =
        (outcome (read budget .expr) t).map (Except.map (curried names)) id := by
  obtain ⟨first, rest, hp, hfirst⟩ : ∃ first rest, p = first :: rest ∧ first.kind = .vbar := by
    cases h with
    | mk hleft => exact ⟨_, _, rfl, hleft⟩
  have hpeek : Takes peek [] first (p ++ body) := hp ▸ takes_peek
  obtain ⟨s₁, hs₁, hview₁⟩ := hpeek s hs
  obtain ⟨hpending, hending, hsource⟩ : s₁.pending = p ++ body ∧
      s₁.feed.ending = s.feed.ending ∧ s₁.source = s.source := by simpa [view] using hview₁
  obtain ⟨t, ht, hview⟩ := takes_header h s₁ hpending
  rw [hending, hsource] at hview
  refine ⟨t, hview, fun budget => ?_⟩
  calc outcome (read (budget + 2) .expr) s
    _ = outcome (read (budget + 1) .fnExpr) s₁ := by
      rw [read, step, outcome_bind_of_ok hs₁, hfirst]
    _ = outcome (curried names <$> read budget .expr) t := by
      rw [read, step_fnExpr, outcome_bind_of_ok ht]
    _ = _ := outcome_map _ _ _

/-- Literals within each other are read as the innermost body. -/
theorem Headers.read_eq {names : List String} {p body : List Token} (h : Headers names p)
    {s : TokenStream} (hs : s.pending = p ++ body) :
    ∃ t : TokenStream, t.view = (body, s.feed.ending, s.source) ∧ ∀ budget,
      outcome (read (budget + 2 * names.length) .expr) s =
        (outcome (read budget .expr) t).map
          (Except.map fun e => names.foldr (fun name inner => .fn (some name) inner) e) id := by
  induction h generalizing s with
  | nil =>
    refine ⟨s, by rw [view, hs, List.nil_append], fun budget => ?_⟩
    rcases outcome (read budget .expr) s with ⟨_ | _, _⟩ <;> rfl
  | @cons name names p q h hrest ih =>
    rw [List.append_assoc] at hs
    obtain ⟨t, hview, hread⟩ := h.read_eq hs
    obtain ⟨hpending, hending, hsource⟩ : t.pending = q ++ body ∧
        t.feed.ending = s.feed.ending ∧ t.source = s.source := by simpa [view] using hview
    obtain ⟨t', hview', hread'⟩ := ih hpending
    refine ⟨t', by rw [hview', hending, hsource], fun budget => ?_⟩
    have hbudget : budget + 2 * (name :: names).length = budget + 2 * names.length + 2 := by
      rw [List.length_cons]
      omega
    rw [hbudget, hread, hread']
    rcases outcome (read budget .expr) t' with ⟨_ | _, _⟩ <;> rfl

/-- One list of parameters and a literal for each of them are read alike. -/
theorem sameReading_literals {names : List String} {p q body : List Token} {ending : Option Fault}
    {s s' : TokenStream} (hne : names ≠ []) (h : Header names p) (h' : Headers names q)
    (hs : s.Holds (p ++ body) ending) (hs' : s'.Holds (q ++ body) ending) (budget : Nat) :
    SameReading (outcome (parse (budget + 2)) s)
      (outcome (parse (budget + 2 * names.length)) s') := by
  let joined := ofFeed "" ⟨p ++ body, ending⟩
  let nested := ofFeed "" ⟨q ++ body, ending⟩
  have hjoined : s.Holds joined.pending joined.feed.ending := hs
  have hnested : s'.Holds nested.pending nested.feed.ending := hs'
  obtain ⟨t, hview, hread⟩ := h.read_eq (s := joined) rfl
  obtain ⟨t', hview', hread'⟩ := h'.read_eq (s := nested) rfl
  have hsame : t'.Holds t.pending t.feed.ending := by
    have heq : t'.view = t.view := hview'.trans hview.symm
    simp only [view, Prod.mk.injEq] at heq
    exact ⟨by rw [heq.1], by rw [heq.2.1]⟩
  have hcurried : curried names =
      fun e => names.foldr (fun name inner => .fn (some name) inner) e := by
    funext e
    cases names with
    | nil => exact absurd rfl hne
    | cons name names => rfl
  have hbody := (sameReading_read hsame budget .expr).map (curried names)
  rw [← hread] at hbody
  rw [hcurried, ← hread'] at hbody
  exact ((sameReading_read hjoined _ _).symm.trans hbody).trans (sameReading_read hnested _ _)

theorem sameReading_literals_of_budgets {names : List String} {p q body : List Token}
    {ending : Option Fault} {s s' : TokenStream} (hne : names ≠ []) (h : Header names p)
    (h' : Headers names q) (hs : s.Holds (p ++ body) ending) (hs' : s'.Holds (q ++ body) ending)
    {budget budget' : Nat} (hran : ¬ RanOut (outcome (parse budget) s).1)
    (hran' : ¬ RanOut (outcome (parse budget') s').1) :
    SameReading (outcome (parse budget) s) (outcome (parse budget') s') := by
  have hsame := sameReading_literals hne h h' hs hs' (budget + budget')
  have hlarger : budget ≤ budget + budget' + 2 := by omega
  have hlarger' : budget' ≤ budget + budget' + 2 * names.length := by omega
  have heq : outcome (parse (budget + budget' + 2)) s = outcome (parse budget) s :=
    read_prolongs hlarger .expr s hran
  have heq' : outcome (parse (budget + budget' + 2 * names.length)) s' =
      outcome (parse budget') s' := read_prolongs hlarger' .expr s' hran'
  rwa [heq, heq'] at hsame

/-! ### Arguments -/

/-- Every part in parentheses of its own, one after the other. -/
inductive OneByOne : List (List Token) → List Token → Prop
  | nil : OneByOne [] []
  | cons {left right : Token} {p q : List Token} {parts : List (List Token)}
      (hleft : left.kind = .lparen) (hright : right.kind = .rparen) (hrest : OneByOne parts q) :
      OneByOne (p :: parts) (left :: (p ++ right :: q))

/-- The parts in one pair of parentheses, with commas between them. -/
inductive AllAtOnce : List (List Token) → List Token → Prop
  | mk {left right : Token} {p : List Token} {parts : List (List Token)}
      (hleft : left.kind = .lparen) (h : CommaJoined parts p) (hright : right.kind = .rparen) :
      AllAtOnce parts (left :: (p ++ [right]))

/-- Streams of these tokens are read as the tree, and nothing is left of them, unless the budget
runs out, which it does not if it is large. -/
def ReadAs (tokens : List Token) (e : Expr) : Prop :=
  ∀ s : TokenStream, s.Holds (tokens ++ [Token.eof 0]) none →
    (∀ budget, RanOut (outcome (parse budget) s).1 ∨
      ∃ t, outcome (parse budget) s = (.ok e, t) ∧ t.Holds [Token.eof 0] none) ∧
    ∃ enough, ∀ budget ≥ enough, ¬ RanOut (outcome (parse budget) s).1

theorem readAs_of_greedy {enough : Nat} {tokens : List Token} {e : Expr} {opens : Set Kind}
    (h : Greedy enough .expr tokens e opens) : ReadAs tokens e := by
  intro s hs
  let stream := ofFeed "" ⟨tokens ++ [Token.eof 0], none⟩
  have hstream : s.Holds stream.pending stream.feed.ending := hs
  have hopens : .eof ∉ opens := h.notMem_opens (by decide)
  have hall : ∀ budget ≥ enough,
      ∃ t, outcome (parse budget) s = (.ok e, t) ∧ t.Holds [Token.eof 0] none := by
    intro budget hle
    have hended : Ended opens [Token.eof 0] := hopens
    obtain ⟨t, ht, hview⟩ := read_complete budget .expr (h.mono hle) hended stream rfl
    have hsame := sameReading_read hstream budget .expr
    rw [ht] at hsame
    generalize hresult : outcome (read budget .expr) s = result at hsame
    cases hsame with
    | ok _ hholds =>
      simp only [view, Prod.mk.injEq] at hview
      rw [hview.1, hview.2.1] at hholds
      exact ⟨_, hresult, hholds⟩
  refine ⟨fun budget => ?_, enough, fun budget hle => ?_⟩
  · by_cases hran : RanOut (outcome (parse budget) s).1
    · exact .inl hran
    · obtain ⟨t, ht, hholds⟩ := hall (max budget enough) (Nat.le_max_right _ _)
      have hsame := read_prolongs (Nat.le_max_left budget enough) .expr s hran
      exact .inr ⟨t, hsame.symm.trans ht, hholds⟩
  · obtain ⟨t, ht, -⟩ := hall budget hle
    rw [ht]
    exact not_ranOut_ok e

theorem readAs_of_application {budget : Nat} {tokens : List Token} {e : Expr} {opens : Set Kind}
    (h : Greedy budget .application tokens e opens) : ReadAs tokens e := by
  have hunary : Greedy (budget + 1) .unary tokens e opens := .plain h
  obtain ⟨opens', hexpr, -⟩ := hunary.expr_of_unary
  exact readAs_of_greedy hexpr

section Arguments

variable {R : List Token → Expr → Set Kind → Prop} {callee e : Expr} {p q : List Token}
  {parts : List (List Token)} {trees : List Expr}

/-- The calls of a phrase go on with one argument after the other. -/
theorem Calls.oneByOne (h : Calls R callee p e) (hq : OneByOne parts q)
    (hparts : List.Forall₂ (Delimited R .rparen) parts trees) :
    Calls R callee (p ++ q) (trees.foldl .apply e) := by
  induction hq generalizing trees p e with
  | nil =>
    cases hparts
    rwa [List.append_nil]
  | cons hleft hright _ ih =>
    cases hparts with
    | cons hpart hparts =>
      obtain ⟨opens, hpart, hopens, -⟩ := hpart
      have hfirst := h.snoc hleft (.some (.single hpart hopens)) hright
      simpa [applied] using ih hfirst hparts

theorem Calls.allAtOnce (h : Calls R callee p e) (hq : AllAtOnce parts q) (hne : parts ≠ [])
    (hparts : List.Forall₂ (Delimited R .rparen) parts trees) :
    Calls R callee (p ++ q) (trees.foldl .apply e) := by
  cases hq with
  | mk hleft hjoined hright =>
    have hcall := h.snoc hleft (.some (hjoined.items hne hparts)) hright
    cases hparts with
    | nil => exact absurd rfl hne
    | cons _ _ => exact hcall

/-- All arguments are phrases within one budget. -/
theorem exists_trees (h : ∀ part ∈ parts, ∃ e, Derives .expr part e) :
    ∃ trees budget, List.Forall₂ (fun part tree => ∃ opens, Greedy budget .expr part tree opens)
      parts trees := by
  induction parts with
  | nil => exact ⟨[], 0, .nil⟩
  | cons part parts ih =>
    obtain ⟨⟨e, hpart⟩, hparts⟩ := List.forall_mem_cons.1 h
    obtain ⟨tree, opens, n, htree⟩ := hpart.exists_greedily
    obtain ⟨trees, m, htrees⟩ := ih hparts
    refine ⟨tree :: trees, max n m, .cons ⟨opens, htree.mono (Nat.le_max_left n m)⟩ ?_⟩
    exact htrees.imp fun _ _ ⟨opens, h⟩ => ⟨opens, h.mono (Nat.le_max_right n m)⟩

/-- A call with all arguments at once and the calls with one by one are read as the callee, applied
to the arguments in turn. -/
theorem readAs_calls {f joined nested : List Token} (hf : Derives .application f callee)
    (hne : parts ≠ []) (hparts : ∀ part ∈ parts, ∃ e, Derives .expr part e)
    (hjoined : AllAtOnce parts joined) (hnested : OneByOne parts nested) :
    ∃ callee trees, ReadAs f callee ∧ List.Forall₂ ReadAs parts trees ∧
      ReadAs (f ++ joined) (trees.foldl .apply callee) ∧
      ReadAs (f ++ nested) (trees.foldl .apply callee) := by
  obtain ⟨callee, opens, n, hcallee⟩ := hf.exists_greedily
  obtain ⟨trees, m, htrees⟩ := exists_trees hparts
  refine ⟨callee, trees, readAs_of_application hcallee,
    htrees.imp fun _ _ ⟨_, h⟩ => readAs_of_greedy h, ?_⟩
  have hall : List.Forall₂ (Delimited (Greedy (max n (m + 1)) .argument) .rparen) parts trees := by
    refine htrees.imp fun part tree ⟨opens, h⟩ => ⟨opens, ?_, h.notMem_opens (by decide),
      h.notMem_opens (by decide)⟩
    have hargument : Greedy (m + 1) .argument part tree opens := .argument h
    exact hargument.mono (Nat.le_max_right _ _)
  cases (hcallee.mono (Nat.le_max_left n (m + 1))).succ with
  | application hprimary hcalls =>
    constructor
    · have hstep := GreedyStep.application hprimary (hcalls.allAtOnce hjoined hne hall)
      rw [← List.append_assoc] at hstep
      exact @readAs_of_application (max n (m + 1) + 1) _ _ _ hstep
    · have hstep := GreedyStep.application hprimary (hcalls.oneByOne hnested hall)
      rw [← List.append_assoc] at hstep
      exact @readAs_of_application (max n (m + 1) + 1) _ _ _ hstep

end Arguments

end Parser
end LetLang
