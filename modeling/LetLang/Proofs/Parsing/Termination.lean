import LetLang.Proofs.Parsing.Progress
/-!
# Reading comes to an end

The loops of the productions end by themselves, since each of their rounds takes a token: a limit on
the number of rounds makes no difference, if it is not below the number of tokens. And with a
budget that suffices, what is read from a stream with an end is an expression or a complaint about
a token, whatever the budget.
-/
namespace LetLang.Parser

open TokenStream

variable {α : Type}

/-! ### Rounds of loops -/

section Rounds

variable {s : TokenStream} {rounds rounds' : List Token}

theorem operations_of_nil (operand : Reading Expr) (level : Level) (rounds : List Token)
    (left : Expr) (h : s.pending = []) :
    outcome (operations level operand rounds left) s =
      (.error (s.feed.ending.getD .exhausted), (outcome peek s).2) := by
  obtain ⟨looked, hpeek⟩ := outcome_peek_of_nil h
  cases rounds with
  | nil => rw [operations, outcome_bind_of_error hpeek, hpeek]
  | cons => rw [operations, outcome_bind_of_error hpeek, hpeek]

theorem outcome_nextIs_of_nil (kinds : List Kind) (h : s.pending = []) :
    outcome (nextIs kinds) s = (.error (s.feed.ending.getD .exhausted), (outcome peek s).2) := by
  obtain ⟨looked, hpeek⟩ := outcome_peek_of_nil h
  rw [nextIs, outcome_bind_of_error hpeek, hpeek]

theorem separated_of_nil (item : Reading α) (close : Kind) (rounds : List Token)
    (h : s.pending = []) :
    outcome (separated close item rounds) s =
      (.error (s.feed.ending.getD .exhausted), (outcome peek s).2) := by
  rw [separated.eq_def, outcome_bind_of_error (outcome_nextIs_of_nil _ h)]

theorem calls_of_nil (argument : Reading Expr) (rounds : List Token) (callee : Expr)
    (h : s.pending = []) :
    outcome (calls argument rounds callee) s =
      (.error (s.feed.ending.getD .exhausted), (outcome peek s).2) := by
  cases rounds with
  | nil => rw [calls, outcome_bind_of_error (outcome_nextIs_of_nil _ h)]
  | cons => rw [calls, outcome_bind_of_error (outcome_nextIs_of_nil _ h)]

/-- Operators and operands come to an end by themselves: it does not matter how many rounds there
may be, if there may be as many as there are tokens. -/
theorem operations_rounds {operand : Reading Expr} (hsome : Progresses operand) (level : Level)
    (left : Expr) (h : s.pending.length ≤ rounds.length)
    (h' : s.pending.length ≤ rounds'.length) :
    outcome (operations level operand rounds left) s =
      outcome (operations level operand rounds' left) s := by
  induction rounds generalizing s rounds' left with
  | nil =>
    have hpending := List.length_eq_zero_iff.1 (Nat.le_zero.1 h)
    rw [operations_of_nil _ _ _ _ hpending, operations_of_nil _ _ _ _ hpending]
  | cons _ rounds ih =>
    cases rounds' with
    | nil =>
      have hpending := List.length_eq_zero_iff.1 (Nat.le_zero.1 h')
      rw [operations_of_nil _ _ _ _ hpending, operations_of_nil _ _ _ _ hpending]
    | cons _ rounds' =>
      rw [operations, operations]
      refine outcome_bind_congr fun token s₁ hpeek => ?_
      cases level.operator? token.kind with
      | none => rfl
      | some op =>
        refine outcome_bind_congr fun operator s₂ hadvance => ?_
        refine outcome_bind_congr fun right s₃ hright => ?_
        have hlooked := advances_peek.length_le hpeek
        have htaken := advances_advance.length_le hadvance
        have hless := hsome hright
        rw [List.length_cons] at h h'
        exact ih _ (by omega) (by omega)

/-- The items behind a first one come to an end by themselves. -/
theorem separated_rounds {item : Reading α} (hsome : Progresses item) (close : Kind)
    (h : s.pending.length ≤ rounds.length) (h' : s.pending.length ≤ rounds'.length) :
    outcome (separated close item rounds) s = outcome (separated close item rounds') s := by
  have hnext : Advances (nextIs [close]) := inherited_advances.nextIs _
  induction rounds generalizing s rounds' with
  | nil =>
    have hpending := List.length_eq_zero_iff.1 (Nat.le_zero.1 h)
    rw [separated_of_nil _ _ _ hpending, separated_of_nil _ _ _ hpending]
  | cons _ rounds ih =>
    cases rounds' with
    | nil =>
      have hpending := List.length_eq_zero_iff.1 (Nat.le_zero.1 h')
      rw [separated_of_nil _ _ _ hpending, separated_of_nil _ _ _ hpending]
    | cons _ rounds' =>
      rw [separated, separated]
      refine outcome_bind_congr fun closes s₁ hlook => ?_
      split
      · rfl
      · refine outcome_bind_congr fun comma s₂ hcomma => ?_
        refine outcome_bind_congr fun first s₃ hfirst => ?_
        have hlooked := hnext.length_le hlook
        have htaken := (advances_expect _).length_le hcomma
        have hless := hsome hfirst
        rw [List.length_cons] at h h'
        have hrest := @ih s₃ rounds' (by omega) (by omega)
        rw [outcome_bind, outcome_bind, hrest]

/-- Argument lists come to an end by themselves. -/
theorem calls_rounds {argument : Reading Expr} (hfront : Advances argument) (callee : Expr)
    (h : s.pending.length ≤ rounds.length) (h' : s.pending.length ≤ rounds'.length) :
    outcome (calls argument rounds callee) s = outcome (calls argument rounds' callee) s := by
  have hnext : Advances (nextIs [.lparen]) := inherited_advances.nextIs _
  induction rounds generalizing s rounds' callee with
  | nil =>
    have hpending := List.length_eq_zero_iff.1 (Nat.le_zero.1 h)
    rw [calls_of_nil _ _ _ hpending, calls_of_nil _ _ _ hpending]
  | cons _ rounds ih =>
    cases rounds' with
    | nil =>
      have hpending := List.length_eq_zero_iff.1 (Nat.le_zero.1 h')
      rw [calls_of_nil _ _ _ hpending, calls_of_nil _ _ _ hpending]
    | cons _ rounds' =>
      rw [calls_cons, calls_cons]
      refine outcome_bind_congr fun opens s₁ hlook => ?_
      split
      · refine outcome_bind_congr fun arguments s₂ harguments => ?_
        have hlooked := hnext.length_le hlook
        have hless := progresses_argumentList hfront harguments
        rw [List.length_cons] at h h'
        exact ih _ (by omega) (by omega)
      · rfl

end Rounds

/-! ### Readers that come to an end -/

/-- From the given budget on the reader gives one and the same: something that it has read, or a
token that is none of those expected. -/
def Settles (x : Nat → Reading α) (enough : Nat) (s : TokenStream) : Prop :=
  ∃ result s', (∀ budget, enough ≤ budget → outcome (x budget) s = (result, s')) ∧
    ((∃ a, result = .ok a) ∨ ∃ kinds found, found.kind ∉ kinds ∧
      result = .error (.language (.unexpectedToken kinds found s.source)))

theorem Settles.of_lasts {x : Nat → Reading α} {enough : Nat} {s : TokenStream}
    (hlasts : Lasts s.pending.length (x enough))
    (hprolongs : ∀ budget, enough ≤ budget → Prolongs (x budget) (x enough))
    (hsated : Sated s.source none (x enough)) (hending : s.feed.ending = none)
    (hend : ∃ token ∈ s.pending, token.kind = .eof) : Settles x enough s := by
  have hfed : Fed s.source none s := ⟨s.pending, by rw [view, hending], fun _ => hend⟩
  have hran := hlasts s (Nat.le_refl _) (by simp [hending])
  have hsame : ∀ budget, enough ≤ budget → outcome (x budget) s = outcome (x enough) s :=
    fun budget hbudget => hprolongs budget hbudget s hran
  rcases hrun : outcome (x enough) s with ⟨fault | a, s'⟩
  · rw [hrun] at hran hsame
    refine ⟨_, _, hsame, .inr ?_⟩
    cases hsated.fault hfed hrun with
    | unexpected hkind => exact ⟨_, _, hkind, rfl⟩
    | nested => exact absurd rfl hran
    | ended h => cases h
  · rw [hrun] at hsame
    exact ⟨_, _, hsame, .inl ⟨a, rfl⟩⟩

theorem read_settles (production : Production) {s : TokenStream} (hending : s.feed.ending = none)
    (hend : ∃ token ∈ s.pending, token.kind = .eof) :
    Settles (read · production) (production.nesting s.pending.length) s :=
  .of_lasts (read_lasts (Nat.le_refl _)) (fun _ h => read_prolongs h production)
    (inherited_sated.read _ production) hending hend

theorem argumentList_settles {s : TokenStream} (hending : s.feed.ending = none)
    (hend : ∃ token ∈ s.pending, token.kind = .eof) :
    Settles (fun budget => argumentList (read budget .argument))
      (Production.argument.nesting s.pending.length) s := by
  refine .of_lasts ?_ (fun budget hbudget => ?_) ?_ hending hend
  · exact (read_lasts (Nat.le_refl _)).argumentList (inherited_advances.read _ _)
  · exact (Prolongs.refl _).bind fun _ =>
      (enclosed_prolongs (read_prolongs hbudget _) _ _).bind fun _ => Prolongs.refl _
  · have hpresent : Sated s.source none (return !(← nextIs [.rparen])) :=
      (sated_nextIs _).bind fun _ => .pure _
    exact (sated_expect _).bind fun _ =>
      (inherited_sated.enclosed (inherited_sated.read _ _) _ hpresent).bind fun _ =>
        (sated_expect _).bind fun _ => .pure _

end LetLang.Parser
