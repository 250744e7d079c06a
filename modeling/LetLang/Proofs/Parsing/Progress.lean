import LetLang.Proofs.Budget
import LetLang.Proofs.Parsing.Faults
import LetLang.Proofs.Parsing.Soundness
/-!
# Reading makes progress

Whatever is read, tokens are taken from the front of a stream, and the end of the source is none of
them. A production takes at least one. Where one production is nested in another without a token
between them, it stands on a lower level of the grammar. So the levels, together with the number of
tokens that are left, bound how deep productions can be nested, and with a budget that large
reading does not run out of it.
-/
namespace LetLang.Parser

open TokenStream

variable {α β : Type}

/-! ### What is taken -/

/-- The reader takes tokens from the front of the stream, and leaves the end of the source. -/
def Advances (x : Reading α) : Prop :=
  ∀ ⦃s a s'⦄, outcome x s = (.ok a, s') → s'.feed.ending = s.feed.ending ∧
    ∃ taken, s.pending = taken ++ s'.pending ∧ ∀ token ∈ taken, token.kind ≠ .eof

/-- The reader takes at least one token. -/
def Progresses (x : Reading α) : Prop :=
  ∀ ⦃s a s'⦄, outcome x s = (.ok a, s') → s'.pending.length < s.pending.length

theorem Advances.length_le {x : Reading α} (h : Advances x) {s s' : TokenStream} {a : α}
    (hrun : outcome x s = (.ok a, s')) : s'.pending.length ≤ s.pending.length := by
  obtain ⟨-, taken, hpending, -⟩ := h hrun
  rw [hpending, List.length_append]
  omega

theorem advances_pure (a : α) : Advances (pure a : Reading α) := by
  intro s b s' h
  cases h
  exact ⟨rfl, [], rfl, by simp⟩

theorem advances_throw (fault : Fault) : Advances (throw fault : Reading α) := by
  intro s a s' h
  cases h

theorem Advances.bind {x : Reading α} {f : α → Reading β} (hx : Advances x)
    (hf : ∀ a, Advances (f a)) : Advances (x >>= f) := by
  intro s b s' h
  obtain ⟨a, s₁, hfirst, hrest⟩ := outcome_bind_eq_ok.1 h
  obtain ⟨hending, taken, hpending, hkinds⟩ := hx hfirst
  obtain ⟨hending', taken', hpending', hkinds'⟩ := hf a hrest
  refine ⟨hending'.trans hending, taken ++ taken', ?_, ?_⟩
  · rw [hpending, hpending', List.append_assoc]
  · exact List.forall_mem_append.2 ⟨hkinds, hkinds'⟩

theorem advances_get : Advances (get : Reading TokenStream) := by
  intro s a s' h
  cases h
  exact ⟨rfl, [], rfl, by simp⟩

theorem advances_peek : Advances peek := by
  intro s token s' h
  obtain ⟨rest, hpending, hpending'⟩ := pending_of_peek h
  obtain ⟨looked, hpeek, hview⟩ := outcome_peek_of_cons hpending
  rw [h] at hpeek
  cases hpeek
  exact ⟨congrArg (·.2.1) hview, [], by rw [hpending, hpending', List.nil_append], by simp⟩

theorem advances_advance : Advances advance := by
  intro s token s' h
  obtain ⟨first, looked, hpeek, -⟩ := outcome_bind_eq_ok.1 h
  obtain ⟨rest, hpending, -⟩ := pending_of_peek hpeek
  obtain ⟨left, hadvance, hview⟩ := exists_outcome_advance hpending
  rw [h] at hadvance
  cases hadvance
  simp only [view, Prod.mk.injEq] at hview
  refine ⟨hview.2.1, ?_⟩
  rw [hpending, hview.1]
  by_cases hkind : token.kind = .eof
  · exact ⟨[], by simp [hkind], by simp⟩
  · exact ⟨[token], by simp [hkind], by simpa using hkind⟩

theorem advances_expect (kinds : List Kind) : Advances (expect kinds) := by
  refine advances_peek.bind fun token => ?_
  split
  · exact advances_advance
  · exact advances_get.bind fun _ => advances_throw _

theorem inherited_advances : Inherited fun _ x => Advances x where
  pure := advances_pure
  bind := .bind
  get := advances_get
  nested := advances_throw _
  peek := advances_peek
  advance := advances_advance
  expect := advances_expect

theorem progresses_expect {kinds : List Kind} (hkinds : .eof ∉ kinds) :
    Progresses (expect kinds) := by
  intro s token s' h
  obtain ⟨-, hpending⟩ := pending_of_expect h hkinds
  rw [hpending, List.length_cons]
  omega

theorem Progresses.bind {x : Reading α} {f : α → Reading β} (hx : Progresses x)
    (hf : ∀ a, Advances (f a)) : Progresses (x >>= f) := by
  intro s b s' h
  obtain ⟨a, s₁, hfirst, hrest⟩ := outcome_bind_eq_ok.1 h
  exact Nat.lt_of_le_of_lt ((hf a).length_le hrest) (hx hfirst)

/-- A production takes a token at least, and never the end of the source. -/
theorem read_takes_tokens {budget : Nat} {production : Production} {s s' : TokenStream}
    {expr : Expr} (h : outcome (read budget production) s = (.ok expr, s')) :
    ∃ taken, taken ≠ [] ∧ s.pending = taken ++ s'.pending ∧
      ∀ token ∈ taken, token.kind ≠ .eof := by
  obtain ⟨p, opens, hp, hpending, -⟩ := read_sound budget production h
  obtain ⟨-, taken, htaken, hkinds⟩ := inherited_advances.read budget production h
  obtain rfl : taken = p := List.append_cancel_right (htaken.symm.trans hpending)
  obtain ⟨first, rest, rfl, -⟩ := hp.begins
  exact ⟨first :: rest, List.cons_ne_nil _ _, hpending, hkinds⟩

theorem progresses_read (budget : Nat) (production : Production) :
    Progresses (read budget production) := by
  intro s expr s' h
  obtain ⟨taken, htaken, hpending, -⟩ := read_takes_tokens h
  have hlength := List.length_pos_iff.2 htaken
  rw [hpending, List.length_append]
  omega

/-- Whether more follows is looked up without taking anything. -/
theorem parseNext_takes_tokens {budget : Nat} {s s' : TokenStream} {found : Expr × Bool}
    (h : outcome (parseNext budget) s = (.ok found, s')) :
    ∃ taken, taken ≠ [] ∧ s.pending = taken ++ s'.pending ∧
      ∀ token ∈ taken, token.kind ≠ .eof := by
  obtain ⟨expr, s₁, hread, hlook⟩ := outcome_bind_eq_ok.1 h
  obtain ⟨atEnd, s₂, hnext, hpure⟩ := outcome_bind_eq_ok.1 hlook
  cases hpure
  rw [pending_of_nextIs_same hnext]
  exact read_takes_tokens hread

theorem progresses_identifier : Progresses identifier :=
  (progresses_expect (by decide)).bind fun _ => advances_pure _

/-! ### Budgets that suffice -/

/-- The level of a production: those nested in it before a token is taken are on lower ones. -/
def Production.level : Production → Nat
  | letExpr | ifExpr | fnExpr | primary => 1
  | application => 2
  | unary => 3
  | infixed .product => 4
  | infixed .sum => 5
  | infixed .comparison => 6
  | infixed .logic => 7
  | expr => 8
  | argument => 9

/-- How deep productions can be nested in one that begins where `size` tokens are left. -/
def Production.nesting (production : Production) (size : Nat) : Nat :=
  9 * size + production.level

theorem Production.level_pos (production : Production) : 0 < production.level := by
  rcases production with _ | _ | _ | _ | level | _ | _ | _ | _
  case infixed => cases level <;> decide
  all_goals decide

theorem Production.level_le (production : Production) : production.level ≤ 9 := by
  rcases production with _ | _ | _ | _ | level | _ | _ | _ | _
  case infixed => cases level <;> decide
  all_goals decide

section Nesting

variable {production nested : Production} {size less budget : Nat}

/-- A production that is nested behind a token may be on any level. -/
theorem nesting_le_of_lt (hless : less < size) (h : production.nesting size ≤ budget + 1) :
    nested.nesting less ≤ budget := by
  have hlevel := production.level_pos
  have hlevel' := nested.level_le
  unfold Production.nesting at h ⊢
  omega

theorem nesting_le_of_level_lt (hlevel : nested.level < production.level)
    (h : production.nesting size ≤ budget + 1) : nested.nesting size ≤ budget := by
  unfold Production.nesting at h ⊢
  omega

end Nesting

/-- The reader does not run out of its budget where no more than `size` tokens are left. -/
def Lasts (size : Nat) (x : Reading α) : Prop :=
  ∀ s : TokenStream, s.pending.length ≤ size → s.feed.ending ≠ some .recursionLimit →
    ¬ RanOut (outcome x s).1

namespace Lasts

variable {size : Nat}

theorem mono {x : Reading α} {size' : Nat} (h : Lasts size' x) (hle : size ≤ size') :
    Lasts size x :=
  fun s hlength => h s (hlength.trans hle)

theorem pure (a : α) : Lasts size (Pure.pure a : Reading α) := by
  intro s _ _
  simp

theorem get : Lasts size (MonadState.get : Reading TokenStream) := by
  intro s _ _
  simp

theorem ite {x y : Reading α} {c : Prop} [Decidable c] (hx : Lasts size x) (hy : Lasts size y) :
    Lasts size (if c then x else y) := by
  split
  · exact hx
  · exact hy

/-- What comes next starts with the tokens that the first reader has left. -/
theorem bind_left {x : Reading α} {f : α → Reading β} (hx : Lasts size x) (hfront : Advances x)
    (hf : ∀ ⦃s a s'⦄, outcome x s = (.ok a, s') → s.pending.length ≤ size →
      Lasts s'.pending.length (f a)) : Lasts size (x >>= f) := by
  intro s hlength hending
  rcases hrun : outcome x s with ⟨fault | a, s'⟩
  · have hfault := hx s hlength hending
    rw [hrun, ranOut_error_iff] at hfault
    rwa [outcome_bind_of_error hrun, ranOut_error_iff]
  · obtain ⟨hending', -⟩ := hfront hrun
    rw [outcome_bind_of_ok hrun]
    exact hf hrun hlength s' (Nat.le_refl _) (hending' ▸ hending)

theorem bind {x : Reading α} {f : α → Reading β} (hx : Lasts size x) (hfront : Advances x)
    (hf : ∀ a, Lasts size (f a)) : Lasts size (x >>= f) :=
  hx.bind_left hfront fun _ a _ hrun hlength => (hf a).mono ((hfront.length_le hrun).trans hlength)

/-- After a token was taken, there are fewer left. -/
theorem bind_behind {x : Reading α} {f : α → Reading β} (hx : Lasts size x)
    (hfront : Advances x) (hsome : Progresses x) (hf : ∀ less < size, ∀ a, Lasts less (f a)) :
    Lasts size (x >>= f) :=
  hx.bind_left hfront fun _ a _ hrun hlength => hf _ (Nat.lt_of_lt_of_le (hsome hrun) hlength) a

theorem peek : Lasts size peek := by
  intro s _ hending
  cases hpending : s.pending with
  | nil =>
    obtain ⟨s', hpeek⟩ := outcome_peek_of_nil hpending
    rw [hpeek, ranOut_error_iff]
    cases hfault : s.feed.ending with
    | none => simp
    | some fault =>
      rintro rfl
      exact hending hfault
  | cons token rest =>
    obtain ⟨s', hpeek, -⟩ := outcome_peek_of_cons hpending
    rw [hpeek]
    simp

theorem advance : Lasts size advance :=
  peek.bind advances_peek fun token => by
    intro s _ _
    exact not_ranOut_ok token

theorem expect (kinds : List Kind) : Lasts size (expect kinds) := by
  refine peek.bind advances_peek fun token => ?_
  split
  · exact advance
  · intro s _ _ hout
    cases hout

/-- Behind an expected token there are fewer left. -/
theorem expect_bind {kinds : List Kind} (hkinds : .eof ∉ kinds) {f : Token → Reading β}
    (hf : ∀ less < size, ∀ token, Lasts less (f token)) :
    Lasts size (TokenStream.expect kinds >>= f) :=
  (expect kinds).bind_behind (advances_expect kinds) (progresses_expect hkinds) hf

theorem nextIs (kinds : List Kind) : Lasts size (nextIs kinds) :=
  peek.bind advances_peek fun _ => .pure _

theorem identifier : Lasts size identifier :=
  (expect _).bind (advances_expect _) fun _ => .pure _

theorem operations {operand : Reading Expr} (h : Lasts size operand) (hfront : Advances operand)
    (level : Level) (rounds : List Token) (left : Expr) :
    Lasts size (operations level operand rounds left) := by
  induction rounds generalizing left with
  | nil =>
    rw [Parser.operations]
    exact peek.bind advances_peek fun _ => .pure _
  | cons _ rounds ih =>
    rw [Parser.operations]
    refine peek.bind advances_peek fun token => ?_
    cases level.operator? token.kind with
    | none => exact .pure _
    | some op => exact advance.bind advances_advance fun _ => h.bind hfront fun right => ih _

theorem separated {item : Reading α} (h : Lasts size item) (hfront : Advances item) (close : Kind)
    (rounds : List Token) : Lasts size (separated close item rounds) := by
  have hnext := inherited_advances.nextIs [close]
  induction rounds with
  | nil =>
    rw [Parser.separated.eq_def]
    exact (nextIs _).bind hnext fun _ => .ite (.pure _) <|
      (expect _).bind (advances_expect _) fun _ => h.bind hfront fun _ => .pure _
  | cons _ rounds ih =>
    rw [Parser.separated]
    have hrest := inherited_advances.separated hfront close rounds
    exact (nextIs _).bind hnext fun _ => .ite (.pure _) <|
      (expect _).bind (advances_expect _) fun _ => h.bind hfront fun _ =>
        ih.bind hrest fun _ => .pure _

theorem enclosed {item : Reading α} (h : Lasts size item) (hfront : Advances item) (close : Kind)
    {present : Reading Bool} (hpresent : Lasts size present) (hlooks : Advances present) :
    Lasts size (enclosed close present item) :=
  hpresent.bind hlooks fun _ => .ite
    (h.bind hfront fun _ => get.bind advances_get fun s =>
      (h.separated hfront close s.pending).bind (inherited_advances.separated hfront close _)
        fun _ => .pure _)
    (.pure _)

end Lasts

/-- The arguments of a call, with the parentheses around them. -/
def argumentList (argument : Reading Expr) : Reading (List Expr) := do
  let _ ← expect [.lparen]
  let arguments ← enclosed .rparen (return !(← nextIs [.rparen])) argument
  let _ ← expect [.rparen]
  return arguments

theorem calls_cons (argument : Reading Expr) (round : Token) (rounds : List Token)
    (callee : Expr) :
    calls argument (round :: rounds) callee = (do
      if ← nextIs [.lparen] then
        let arguments ← argumentList argument
        calls argument rounds (applied callee arguments)
      else return callee) := by
  simp only [calls, argumentList, bind_assoc, pure_bind]

theorem advances_notNextIs (kinds : List Kind) : Advances (return !(← nextIs kinds)) :=
  (inherited_advances.nextIs kinds).bind fun _ => advances_pure _

theorem advances_afterParen {argument : Reading Expr} (h : Advances argument) :
    Advances (do
      let arguments ← enclosed .rparen (return !(← nextIs [.rparen])) argument
      let _ ← expect [.rparen]
      return arguments) :=
  (inherited_advances.enclosed h .rparen (advances_notNextIs _)).bind fun _ =>
    (advances_expect _).bind fun _ => advances_pure _

theorem progresses_argumentList {argument : Reading Expr} (h : Advances argument) :
    Progresses (argumentList argument) :=
  (progresses_expect (by decide)).bind fun _ => advances_afterParen h

theorem advances_argumentList {argument : Reading Expr} (h : Advances argument) :
    Advances (argumentList argument) :=
  (advances_expect _).bind fun _ => advances_afterParen h

namespace Lasts

variable {size : Nat}

theorem argumentList {argument : Reading Expr} (h : Lasts size argument)
    (hfront : Advances argument) : Lasts size (argumentList argument) := by
  have hpresent : Lasts size (return !(← TokenStream.nextIs [.rparen])) :=
    (nextIs _).bind (inherited_advances.nextIs _) fun _ => .pure _
  have henclosed := h.enclosed hfront .rparen hpresent (advances_notNextIs _)
  exact (expect _).bind (advances_expect _) fun _ =>
    henclosed.bind (inherited_advances.enclosed hfront _ (advances_notNextIs _)) fun _ =>
      (expect _).bind (advances_expect _) fun _ => .pure _

theorem calls {argument : Reading Expr} (h : Lasts size argument) (hfront : Advances argument)
    (rounds : List Token) (callee : Expr) : Lasts size (calls argument rounds callee) := by
  have hnext : Advances (TokenStream.nextIs [.lparen]) := inherited_advances.nextIs _
  induction rounds generalizing callee with
  | nil =>
    rw [Parser.calls]
    exact (nextIs _).bind hnext fun _ => .pure _
  | cons round rounds ih =>
    rw [calls_cons]
    exact (nextIs _).bind hnext fun _ => .ite
      ((h.argumentList hfront).bind (advances_argumentList hfront) fun _ => ih _) (.pure _)

end Lasts

section Productions

variable {budget size : Nat}
  (ih : ∀ (production : Production) (size : Nat), production.nesting size ≤ budget →
    Lasts size (read budget production))

include ih

theorem letExpr_lasts (h : Production.letExpr.nesting size ≤ budget + 1) :
    Lasts size (step (read budget) .letExpr) := by
  refine Lasts.expect_bind (by decide) fun less hless _ => ?_
  have hexpr : Lasts less (read budget .expr) := ih _ _ (nesting_le_of_lt hless h)
  have hfront : Advances (read budget .expr) := inherited_advances.read budget .expr
  refine Lasts.identifier.bind inherited_advances.identifier fun name => ?_
  refine (Lasts.expect _).bind (advances_expect _) fun _ => hexpr.bind hfront fun bound => ?_
  refine (Lasts.nextIs _).bind (inherited_advances.nextIs _) fun _ => .ite ?_ (.pure _)
  exact Lasts.advance.bind advances_advance fun _ => hexpr.bind hfront fun _ => .pure _

theorem ifExpr_lasts (h : Production.ifExpr.nesting size ≤ budget + 1) :
    Lasts size (step (read budget) .ifExpr) := by
  refine Lasts.expect_bind (by decide) fun less hless _ => ?_
  have hexpr : Lasts less (read budget .expr) := ih _ _ (nesting_le_of_lt hless h)
  have hfront : Advances (read budget .expr) := inherited_advances.read budget .expr
  refine hexpr.bind hfront fun cond => (Lasts.expect _).bind (advances_expect _) fun _ => ?_
  refine hexpr.bind hfront fun yes => ?_
  refine (Lasts.nextIs _).bind (inherited_advances.nextIs _) fun _ => .ite ?_ (.pure _)
  exact Lasts.advance.bind advances_advance fun _ => hexpr.bind hfront fun _ => .pure _

theorem fnExpr_lasts (h : Production.fnExpr.nesting size ≤ budget + 1) :
    Lasts size (step (read budget) .fnExpr) := by
  refine Lasts.expect_bind (by decide) fun less hless _ => ?_
  have hexpr : Lasts less (read budget .expr) := ih _ _ (nesting_le_of_lt hless h)
  have hpresent : Advances (nextIs [.ident]) := inherited_advances.nextIs _
  have hname : Advances identifier := inherited_advances.identifier
  refine (Lasts.identifier.enclosed hname _ (.nextIs _) hpresent).bind
    (inherited_advances.enclosed hname _ hpresent) fun params => ?_
  refine (Lasts.expect _).bind (advances_expect _) fun _ => ?_
  refine (Lasts.expect _).bind (advances_expect _) fun _ => ?_
  exact hexpr.bind (inherited_advances.read budget .expr) fun _ => .pure _

theorem primary_lasts (h : Production.primary.nesting size ≤ budget + 1) :
    Lasts size (step (read budget) .primary) := by
  refine Lasts.expect_bind (by decide) fun less hless token => ?_
  have hexpr : Lasts less (read budget .expr) := ih _ _ (nesting_le_of_lt hless h)
  cases token.kind with
  | lparen =>
    refine (Lasts.nextIs _).bind (inherited_advances.nextIs _) fun _ => .ite ?_ ?_
    · exact (Lasts.pure _).bind (advances_pure _) fun _ =>
        (Lasts.expect _).bind (advances_expect _) fun _ => .pure _
    · exact hexpr.bind (inherited_advances.read budget .expr) fun _ =>
        (Lasts.expect _).bind (advances_expect _) fun _ => .pure _
  | _ => exact .pure _

theorem infixed_lasts (level : Level)
    (h : (Production.infixed level).nesting size ≤ budget + 1) :
    Lasts size (step (read budget) (.infixed level)) := by
  have hlevel : level.operand.level < (Production.infixed level).level := by
    cases level <;> decide
  have hoperand : Lasts size (read budget level.operand) :=
    ih _ _ (nesting_le_of_level_lt hlevel h)
  have hfront : Advances (read budget level.operand) := inherited_advances.read budget _
  exact hoperand.bind hfront fun left => Lasts.get.bind advances_get fun s =>
    hoperand.operations hfront level s.pending left

theorem unary_lasts (h : Production.unary.nesting size ≤ budget + 1) :
    Lasts size (step (read budget) .unary) := by
  have happlication : Lasts size (read budget .application) :=
    ih _ _ (nesting_le_of_level_lt (by decide) h)
  refine Lasts.peek.bind advances_peek fun token => ?_
  cases unaryOperator? token.kind with
  | none => exact happlication
  | some op =>
    exact Lasts.advance.bind advances_advance fun _ =>
      happlication.bind (inherited_advances.read budget _) fun _ => .pure _

theorem application_lasts (h : Production.application.nesting size ≤ budget + 1) :
    Lasts size (step (read budget) .application) := by
  have hprimary : Lasts size (read budget .primary) :=
    ih _ _ (nesting_le_of_level_lt (by decide) h)
  -- The arguments are on a higher level, but a token was taken before them.
  refine hprimary.bind_behind (inherited_advances.read budget _) (progresses_read budget _)
    fun less hless callee => ?_
  have hargument : Lasts less (read budget .argument) := ih _ _ (nesting_le_of_lt hless h)
  exact Lasts.get.bind advances_get fun s =>
    hargument.calls (inherited_advances.read budget _) s.pending callee

theorem expr_lasts (h : Production.expr.nesting size ≤ budget + 1) :
    Lasts size (step (read budget) .expr) := by
  refine Lasts.peek.bind advances_peek fun token => ?_
  split <;> exact ih _ _ (nesting_le_of_level_lt (by decide) h)

theorem argument_lasts (h : Production.argument.nesting size ≤ budget + 1) :
    Lasts size (step (read budget) .argument) :=
  ih _ _ (nesting_le_of_level_lt (by decide) h)

end Productions

/-- The levels and the tokens that are left bound how deep productions are nested. -/
theorem read_lasts {budget size : Nat} {production : Production}
    (h : production.nesting size ≤ budget) : Lasts size (read budget production) := by
  induction budget generalizing production size with
  | zero =>
    have hlevel := production.level_pos
    rw [Production.nesting] at h
    omega
  | succ budget ih =>
    have ih := fun production size h => @ih size production h
    cases production with
    | expr => exact expr_lasts ih h
    | letExpr => exact letExpr_lasts ih h
    | ifExpr => exact ifExpr_lasts ih h
    | fnExpr => exact fnExpr_lasts ih h
    | infixed level => exact infixed_lasts ih level h
    | unary => exact unary_lasts ih h
    | application => exact application_lasts ih h
    | argument => exact argument_lasts ih h
    | primary => exact primary_lasts ih h

theorem parseNext_lasts {budget size : Nat} (h : Production.expr.nesting size ≤ budget) :
    Lasts size (parseNext budget) :=
  (read_lasts h).bind (inherited_advances.read budget .expr) fun _ =>
    (Lasts.nextIs _).bind (inherited_advances.nextIs _) fun _ => .pure _

end LetLang.Parser
