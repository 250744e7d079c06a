import LetLang.Proofs.Parsing.Inherited
import LetLang.Proofs.Stream
/-!
# Faults of reading

A stream that holds the end of its source, or that a fault ends, is never asked for more than it
holds. What reading expressions from it can fail with is a token of a wrong kind, nesting that is
deeper than the budget, and the fault that ends the stream.
-/
namespace LetLang

open TokenStream

/-- The stream comes to the end of its source or to the fault that ends it. -/
def Fed (source : String) (ending : Option Fault) (s : TokenStream) : Prop :=
  ∃ tokens, s.view = (tokens, ending, source) ∧
    (ending = none → ∃ token ∈ tokens, token.kind = .eof)

/-- What reading can fail with, on a stream with the given source and ending. -/
inductive ReadingFault (source : String) (ending : Option Fault) : Fault → Prop
  | unexpected {kinds : List Kind} {found : Token} (h : found.kind ∉ kinds) :
      ReadingFault source ending (.language (.unexpectedToken kinds found source))
  | nested : ReadingFault source ending .recursionLimit
  | ended {fault : Fault} (h : ending = some fault) : ReadingFault source ending fault

variable {α β : Type} {source : String} {ending : Option Fault}

/-- Reading from a stream that is fed leaves it so, or fails with a fault of reading. -/
structure Sated (source : String) (ending : Option Fault) (x : Reading α) : Prop where
  fed : ∀ {s a s'}, Fed source ending s → outcome x s = (.ok a, s') → Fed source ending s'
  fault : ∀ {s fault s'}, Fed source ending s → outcome x s = (.error fault, s') →
    ReadingFault source ending fault

namespace Sated

theorem pure (a : α) : Sated source ending (Pure.pure a : Reading α) where
  fed hs h := by
    cases h
    exact hs
  fault hs h := by cases h

theorem bind {x : Reading α} {f : α → Reading β} (hx : Sated source ending x)
    (hf : ∀ a, Sated source ending (f a)) : Sated source ending (x >>= f) where
  fed hs h := by
    obtain ⟨a, s₁, hfirst, hrest⟩ := outcome_bind_eq_ok.1 h
    exact (hf a).fed (hx.fed hs hfirst) hrest
  fault {s fault s'} hs h := by
    rcases hfirst : outcome x s with ⟨found | a, s₁⟩
    · rw [outcome_bind_of_error hfirst] at h
      cases h
      exact hx.fault hs hfirst
    · rw [outcome_bind_of_ok hfirst] at h
      exact (hf a).fault (hx.fed hs hfirst) h

theorem get : Sated source ending (MonadState.get : Reading TokenStream) where
  fed hs h := by
    cases h
    exact hs
  fault hs h := by cases h

theorem throw {fault : Fault} (h : ReadingFault source ending fault) :
    Sated source ending (MonadExcept.throw fault : Reading α) where
  fed hs h := by cases h
  fault hs h := by
    cases h
    assumption

end Sated

/-! ### Looking and taking -/

section Tokens

/-- A reader that gives the next token, and leaves the end of the source where it is. -/
theorem sated_token {x : Reading Token} (leave : Token → List Token → List Token)
    (hleave : ∀ token rest, ∀ last ∈ token :: rest, last.kind = .eof → last ∈ leave token rest)
    (hcons : ∀ {s token rest}, s.pending = token :: rest → ∃ s', outcome x s = (.ok token, s') ∧
      s'.view = (leave token rest, s.feed.ending, s.source))
    (hnil : ∀ {s : TokenStream}, s.pending = [] →
      ∃ s', outcome x s = (.error (s.feed.ending.getD .exhausted), s')) :
    Sated source ending x := by
  constructor
  · intro s a s' hs h
    obtain ⟨tokens, hview, hend⟩ := hs
    simp only [view, Prod.mk.injEq] at hview
    cases htokens : tokens with
    | nil =>
      obtain ⟨t, ht⟩ := hnil (hview.1.trans htokens)
      rw [h] at ht
      cases ht
    | cons token rest =>
      obtain ⟨t, ht, hview'⟩ := hcons (hview.1.trans htokens)
      rw [h] at ht
      cases ht
      refine ⟨leave a rest, by rw [hview', hview.2.1, hview.2.2], ?_⟩
      intro hnone
      obtain ⟨last, hlast, hkind⟩ := hend hnone
      rw [htokens] at hlast
      exact ⟨last, hleave a rest last hlast hkind, hkind⟩
  · intro s fault s' hs h
    obtain ⟨tokens, hview, hend⟩ := hs
    simp only [view, Prod.mk.injEq] at hview
    cases htokens : tokens with
    | nil =>
      obtain ⟨t, ht⟩ := hnil (hview.1.trans htokens)
      rw [h, hview.2.1] at ht
      cases hending : ending with
      | none =>
        obtain ⟨last, hlast, -⟩ := hend hending
        simp [htokens] at hlast
      | some found =>
        rw [hending] at ht
        cases ht
        exact .ended rfl
    | cons token rest =>
      obtain ⟨t, ht, -⟩ := hcons (hview.1.trans htokens)
      rw [h] at ht
      cases ht

theorem sated_peek : Sated source ending peek := by
  refine sated_token List.cons (fun _ _ _ h _ => h) ?_ outcome_peek_of_nil
  intro s token rest h
  obtain ⟨s', hpeek, hview⟩ := outcome_peek_of_cons h
  exact ⟨s', hpeek, by rw [hview, view, h]⟩

theorem sated_advance : Sated source ending advance := by
  refine sated_token (fun token rest => if token.kind = .eof then token :: rest else rest)
    ?_ exists_outcome_advance ?_
  · intro token rest last hlast hkind
    by_cases hfirst : token.kind = .eof
    · rwa [if_pos hfirst]
    · rw [if_neg hfirst]
      rcases List.mem_cons.1 hlast with rfl | hrest
      · exact absurd hkind hfirst
      · exact hrest
  · intro s h
    obtain ⟨s', hpeek⟩ := outcome_peek_of_nil h
    exact ⟨s', outcome_bind_of_error hpeek _⟩

theorem sated_expect (kinds : List Kind) : Sated source ending (expect kinds) := by
  refine sated_peek.bind fun token => ?_
  split
  · exact sated_advance
  · next hkind =>
    constructor
    · intro s a s' hs h
      cases h
    · intro s fault s' hs h
      obtain ⟨tokens, hview, -⟩ := hs
      cases h
      rw [show s.source = source from congrArg (·.2.2) hview]
      exact .unexpected hkind

theorem sated_nextIs (kinds : List Kind) : Sated source ending (nextIs kinds) :=
  sated_peek.bind fun _ => .pure _

end Tokens

/-! ### Expressions -/

theorem inherited_sated : Inherited fun _ x => Sated source ending x where
  pure := .pure
  bind := .bind
  get := .get
  nested := .throw .nested
  peek := sated_peek
  advance := sated_advance
  expect := sated_expect

theorem Parser.sated_parseNext (budget : Nat) : Sated source ending (parseNext budget) :=
  inherited_sated.parseNext budget

/-! ### Refused tokens -/

/-- The tokens that the stream still holds are as `P` says, and if a fault ends it, then the given
one. A stream that was read to its fault has none any more. -/
structure Holding (source : String) (ending : Option Fault) (P : Token → Prop) (s : TokenStream) :
    Prop where
  source_eq : s.source = source
  tokens : ∀ token ∈ s.pending, P token
  ending : ∀ fault ∈ s.feed.ending, ending = some fault

/-- What reading from a stream can fail with, also if it failed before. -/
inductive Refusal (source : String) (ending : Option Fault) (P : Token → Prop) : Fault → Prop
  | unexpected {kinds : List Kind} {found : Token} (h : P found) :
      Refusal source ending P (.language (.unexpectedToken kinds found source))
  | nested : Refusal source ending P .recursionLimit
  | ended {fault : Fault} (h : ending = some fault) : Refusal source ending P fault
  | exhausted : Refusal source ending P .exhausted

variable {P : Token → Prop}

/-- The reader refuses only tokens that the stream holds, and brings none into it. -/
structure Draws (source : String) (ending : Option Fault) (P : Token → Prop) (x : Reading α) :
    Prop where
  keeps : ∀ {s}, Holding source ending P s → Holding source ending P (outcome x s).2
  fault : ∀ {s fault}, Holding source ending P s → (outcome x s).1 = .error fault →
    Refusal source ending P fault

namespace Draws

theorem after {x : Reading α} (h : Draws source ending P x) {s s' : TokenStream}
    {result : Except Fault α} (hs : Holding source ending P s)
    (hrun : outcome x s = (result, s')) : Holding source ending P s' := by
  have hafter := h.keeps hs
  rwa [hrun] at hafter

theorem pure (a : α) : Draws source ending P (Pure.pure a : Reading α) where
  keeps hs := hs
  fault _ h := by cases h

theorem bind {x : Reading α} {f : α → Reading β} (hx : Draws source ending P x)
    (hf : ∀ a, Draws source ending P (f a)) : Draws source ending P (x >>= f) where
  keeps {s} hs := by
    rcases hrun : outcome x s with ⟨fault | a, s₁⟩
    · rw [outcome_bind_of_error hrun]
      exact hx.after hs hrun
    · rw [outcome_bind_of_ok hrun]
      exact (hf a).keeps (hx.after hs hrun)
  fault {s fault} hs h := by
    rcases outcome_bind_eq_error.1 h with hfault | ⟨a, s₁, hrun, hrest⟩
    · exact hx.fault hs hfault
    · exact (hf a).fault (hx.after hs hrun) hrest

theorem get : Draws source ending P (MonadState.get : Reading TokenStream) where
  keeps hs := hs
  fault _ h := by cases h

theorem nested : Draws source ending P (throw .recursionLimit : Reading α) where
  keeps hs := hs
  fault _ h := by
    cases h
    exact .nested

end Draws

theorem draws_peek : Draws source ending P peek where
  keeps {s} hs := by
    cases hpending : s.pending with
    | cons token rest =>
      obtain ⟨buffer, tokens, rfl, hpeek⟩ := exists_outcome_peek hpending
      rw [hpeek]
      have htokens := hs.tokens
      rw [hpending] at htokens
      exact ⟨hs.source_eq, htokens, hs.ending⟩
    | nil =>
      obtain ⟨name, buffer, ⟨tokens, stop⟩, last⟩ := s
      obtain ⟨rfl, rfl⟩ := List.append_eq_nil_iff.1 hpending
      cases stop with
      | none => exact hs
      | some fault => exact ⟨hs.source_eq, hs.tokens, nofun⟩
  fault {s fault} hs h := by
    cases hpending : s.pending with
    | cons token rest =>
      obtain ⟨_, _, -, hpeek⟩ := exists_outcome_peek hpending
      rw [hpeek] at h
      cases h
    | nil =>
      obtain ⟨_, hpeek⟩ := outcome_peek_of_nil hpending
      rw [hpeek] at h
      cases hending : s.feed.ending <;> rw [hending] at h <;> cases h
      · exact .exhausted
      · exact .ended (hs.ending _ hending)

theorem draws_advance : Draws source ending P advance := by
  refine draws_peek.bind fun token => ⟨?_, ?_⟩
  · intro s hs
    refine ⟨hs.source_eq, ?_, hs.ending⟩
    intro other hother
    apply hs.tokens
    simp only [pending, List.mem_append] at hother ⊢
    split at hother
    · exact hother
    · exact hother.imp_left List.mem_of_mem_tail
  · intro s fault hs h
    cases h

theorem draws_expect (kinds : List Kind) : Draws source ending P (expect kinds) where
  keeps {s} hs := by
    rw [expect, outcome_bind]
    rcases hpeek : outcome peek s with ⟨fault | token, s₁⟩
    · exact draws_peek.after hs hpeek
    · have hlooked := draws_peek.after hs hpeek
      dsimp only
      split
      · exact draws_advance.keeps hlooked
      · exact hlooked
  fault {s fault} hs h := by
    rcases outcome_bind_eq_error.1 h with hfault | ⟨token, s₁, hpeek, hrest⟩
    · exact draws_peek.fault hs hfault
    · have hlooked := draws_peek.after hs hpeek
      split at hrest
      · exact draws_advance.fault hlooked hrest
      · obtain ⟨rest, hpending, -⟩ := pending_of_peek hpeek
        cases hrest
        rw [hlooked.source_eq]
        exact .unexpected (hs.tokens token (by simp [hpending]))

theorem inherited_draws : Inherited fun _ x => Draws source ending P x where
  pure := .pure
  bind := .bind
  get := .get
  nested := .nested
  peek := draws_peek
  advance := draws_advance
  expect := draws_expect

end LetLang
