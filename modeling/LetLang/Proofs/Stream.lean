import LetLang.Proofs.Computation
import LetLang.Token.Stream
/-!
# Token streams by what they still hold

Looking at a stream and taking from it, in terms of the tokens that are still to be taken and what
ends them; how many of them are in the buffer makes no difference.
-/
namespace LetLang.TokenStream

/-- What is still to come: the tokens, the fault after them, and the source that errors name. -/
def view (stream : TokenStream) : List Token × Option Fault × String :=
  (stream.pending, stream.feed.ending, stream.source)

variable {stream stream' : TokenStream} {token : Token} {rest : List Token} {kinds : List Kind}

theorem pending_eq_of_view_eq (h : stream'.view = stream.view) :
    stream'.pending = stream.pending :=
  congrArg Prod.fst h

/-- Looking at the next token moves it into the buffer, if it is not there. -/
theorem exists_outcome_peek (h : stream.pending = token :: rest) :
    ∃ buffer tokens, buffer ++ tokens = rest ∧
      outcome peek stream = (.ok token, { stream with
        buffer := token :: buffer, feed := { stream.feed with tokens } }) := by
  obtain ⟨source, buffer, ⟨tokens, ending⟩, last⟩ := stream
  cases buffer with
  | nil =>
    simp only [pending, List.nil_append] at h
    subst h
    exact ⟨[], rest, rfl, rfl⟩
  | cons first buffer =>
    simp only [pending, List.cons_append, List.cons.injEq] at h
    obtain ⟨rfl, h⟩ := h
    refine ⟨buffer, tokens, h, ?_⟩
    simp [peek, peekAt, outcome_bind, fetch]

theorem outcome_peek_of_cons (h : stream.pending = token :: rest) :
    ∃ stream', outcome peek stream = (.ok token, stream') ∧ stream'.view = stream.view := by
  obtain ⟨buffer, tokens, rfl, hpeek⟩ := exists_outcome_peek h
  exact ⟨_, hpeek, Prod.ext h.symm rfl⟩

theorem outcome_peek_of_nil (h : stream.pending = []) :
    ∃ stream', outcome peek stream =
      (.error (stream.feed.ending.getD .exhausted), stream') := by
  obtain ⟨source, buffer, ⟨tokens, ending⟩, last⟩ := stream
  obtain ⟨rfl, rfl⟩ := List.append_eq_nil_iff.1 h
  cases ending with
  | none => exact ⟨_, rfl⟩
  | some fault => exact ⟨_, rfl⟩

/-- Taking the next token leaves those after it; the end of the source is never taken. -/
theorem exists_outcome_advance (h : stream.pending = token :: rest) :
    ∃ stream', outcome advance stream = (.ok token, stream') ∧
      stream'.view =
        (if token.kind = .eof then token :: rest else rest, stream.feed.ending, stream.source) := by
  obtain ⟨buffer, tokens, rfl, hpeek⟩ := exists_outcome_peek h
  rw [advance, outcome_bind_of_ok hpeek]
  refine ⟨_, rfl, ?_⟩
  by_cases hkind : token.kind = .eof <;> simp [view, pending, hkind]

theorem outcome_advance_of_cons (h : stream.pending = token :: rest)
    (hkind : token.kind ≠ .eof) :
    ∃ stream', outcome advance stream = (.ok token, stream') ∧
      stream'.view = (rest, stream.feed.ending, stream.source) := by
  obtain ⟨stream', hadvance, hview⟩ := exists_outcome_advance h
  rw [if_neg hkind] at hview
  exact ⟨stream', hadvance, hview⟩

theorem outcome_expect_of_mem (h : stream.pending = token :: rest) (hmem : token.kind ∈ kinds)
    (hkinds : .eof ∉ kinds) :
    ∃ stream', outcome (expect kinds) stream = (.ok token, stream') ∧
      stream'.view = (rest, stream.feed.ending, stream.source) := by
  obtain ⟨looked, hpeek, hview⟩ := outcome_peek_of_cons h
  simp only [view, Prod.mk.injEq] at hview
  have hkind : token.kind ≠ .eof := fun heq => hkinds (heq ▸ hmem)
  obtain ⟨stream', hadvance, hview'⟩ := outcome_advance_of_cons (hview.1.trans h) hkind
  rw [expect, outcome_bind_of_ok hpeek, if_pos hmem]
  exact ⟨stream', hadvance, by rw [hview', hview.2.1, hview.2.2]⟩

theorem outcome_expect_of_notMem (h : stream.pending = token :: rest)
    (hmem : token.kind ∉ kinds) :
    ∃ stream', outcome (expect kinds) stream =
      (.error (.language (.unexpectedToken kinds token stream.source)), stream') := by
  obtain ⟨looked, hpeek, hview⟩ := outcome_peek_of_cons h
  simp only [view, Prod.mk.injEq] at hview
  rw [expect, outcome_bind_of_ok hpeek, if_neg hmem, outcome_bind_of_ok (outcome_get looked),
    hview.2.2]
  exact ⟨looked, rfl⟩

theorem outcome_nextIs_of_cons (kinds : List Kind) (h : stream.pending = token :: rest) :
    ∃ stream', outcome (nextIs kinds) stream = (.ok (token.kind ∈ kinds), stream') ∧
      stream'.view = stream.view := by
  obtain ⟨looked, hpeek, hview⟩ := outcome_peek_of_cons h
  rw [nextIs, outcome_bind_of_ok hpeek]
  exact ⟨looked, rfl, hview⟩

/-! ### What a success tells -/

theorem pending_of_peek (h : outcome peek stream = (.ok token, stream')) :
    ∃ rest, stream.pending = token :: rest ∧ stream'.pending = token :: rest := by
  cases hpending : stream.pending with
  | nil =>
    obtain ⟨_, hpeek⟩ := outcome_peek_of_nil hpending
    rw [h] at hpeek
    cases hpeek
  | cons first rest =>
    obtain ⟨looked, hpeek, hview⟩ := outcome_peek_of_cons hpending
    rw [h] at hpeek
    cases hpeek
    exact ⟨rest, rfl, (pending_eq_of_view_eq hview).trans hpending⟩

theorem pending_of_nextIs {answer : Bool}
    (h : outcome (nextIs kinds) stream = (.ok answer, stream')) :
    ∃ token rest, stream.pending = token :: rest ∧ stream'.pending = token :: rest ∧
      answer = decide (token.kind ∈ kinds) := by
  obtain ⟨token, looked, hpeek, h⟩ := outcome_bind_eq_ok.1 h
  cases h
  obtain ⟨rest, hpending, hpending'⟩ := pending_of_peek hpeek
  exact ⟨token, rest, hpending, hpending', rfl⟩

theorem pending_of_expect (h : outcome (expect kinds) stream = (.ok token, stream'))
    (hkinds : .eof ∉ kinds) :
    token.kind ∈ kinds ∧ stream.pending = token :: stream'.pending := by
  obtain ⟨first, looked, hpeek, -⟩ := outcome_bind_eq_ok.1 h
  obtain ⟨rest, hpending, -⟩ := pending_of_peek hpeek
  by_cases hmem : first.kind ∈ kinds
  · obtain ⟨taken, hexpect, hview⟩ := outcome_expect_of_mem hpending hmem hkinds
    rw [h] at hexpect
    cases hexpect
    simp only [view, Prod.mk.injEq] at hview
    exact ⟨hmem, by rw [hpending, hview.1]⟩
  · obtain ⟨_, hexpect⟩ := outcome_expect_of_notMem hpending hmem
    rw [h] at hexpect
    cases hexpect

theorem pending_of_expect_singleton {kind : Kind}
    (h : outcome (expect [kind]) stream = (.ok token, stream')) (hkind : kind ≠ .eof) :
    token.kind = kind ∧ stream.pending = token :: stream'.pending := by
  simpa using pending_of_expect h (by simpa using hkind.symm)

theorem pending_of_advance (h : outcome advance stream = (.ok token, stream'))
    {first : Token} (hpending : stream.pending = first :: rest) (hkind : first.kind ≠ .eof) :
    token = first ∧ stream'.pending = rest := by
  obtain ⟨taken, hadvance, hview⟩ := outcome_advance_of_cons hpending hkind
  rw [h] at hadvance
  cases hadvance
  exact ⟨rfl, congrArg Prod.fst hview⟩

end LetLang.TokenStream
