import LetLang.Proofs.Budget
import LetLang.Proofs.Grammar.Dominance
import LetLang.Proofs.Parsing.Completeness
/-!
# What is read from a list of tokens

The tree that is read stands for the longest beginning of the tokens that the grammar derives, and
tokens that the grammar derives as a whole are read as a whole, whatever derivation they have.
-/
namespace LetLang.Parser

variable {budget : Nat} {stream : TokenStream} {ts p : List Token} {pos : Nat}

/-- The tokens that are left after an expression are those that follow a phrase. -/
theorem parse_sound {e : Expr} {stream' : TokenStream}
    (hpending : stream.pending = ts ++ [Token.eof pos])
    (h : outcome (parse budget) stream = (.ok e, stream')) :
    ∃ p rest opens, ts = p ++ rest ∧ stream'.pending = rest ++ [Token.eof pos] ∧
      Greedy budget .expr p e opens ∧ Ended opens (rest ++ [Token.eof pos]) := by
  obtain ⟨p, opens, hp, htaken, hended⟩ := read_sound budget .expr h
  have hne : stream'.pending ≠ [] := by
    intro hnil
    rw [hnil] at hended
    have hmem := hp.lparen_mem_opens (by simp)
    rw [show opens = ∅ from hended] at hmem
    exact hmem
  obtain ⟨rest, last, hrest⟩ : ∃ rest last, stream'.pending = rest ++ [last] :=
    ⟨_, _, (List.dropLast_concat_getLast hne).symm⟩
  rw [hpending, hrest, ← List.append_assoc] at htaken
  obtain ⟨rfl, hlast⟩ := List.append_inj' htaken rfl
  obtain rfl : Token.eof pos = last := by simpa using hlast
  exact ⟨p, rest, opens, rfl, hrest, hp, hrest ▸ hended⟩

/-- Tokens that are derived as a whole are read as a whole, given enough budget. -/
theorem exists_budget_of_derives {e : Expr} (h : Derives .expr p e) (pos : Nat) :
    ∃ enough e', ∀ budget, enough ≤ budget → Takes (parse budget) p e' [Token.eof pos] := by
  obtain ⟨e', opens, enough, hgreedy⟩ := h.exists_greedily
  have hopens : .eof ∉ opens := hgreedy.notMem_opens (by decide)
  refine ⟨enough, e', fun budget hbudget => ?_⟩
  exact read_complete budget .expr (hgreedy.mono hbudget) (ended_cons.2 hopens)

/-- No longer beginning of the tokens is derived than the one that is read. -/
theorem length_le_of_derives {e e' : Expr} {opens : Set Kind} {rest q : List Token}
    (hp : Greedy budget .expr p e opens) (hended : Ended opens (rest ++ [Token.eof pos]))
    (hq : q <+: p ++ rest) (hderives : Derives .expr q e') : q.length ≤ p.length := by
  by_contra hlt
  obtain ⟨r, rfl⟩ : p <+: q := List.prefix_of_prefix_length_le ⟨rest, rfl⟩ hq (by omega)
  obtain ⟨rest', rfl⟩ : r <+: rest := by simpa using hq
  cases r with
  | nil => simp at hlt
  | cons token r =>
    -- The longer beginning would be read whole, but reading it stops where it stopped before.
    obtain ⟨enough, e'', hwhole⟩ := exists_budget_of_derives hderives pos
    let stream := TokenStream.ofFeed "" ⟨p ++ token :: r ++ [Token.eof pos], none⟩
    have hpending : stream.pending = p ++ token :: r ++ [Token.eof pos] := rfl
    obtain ⟨s, hs, hview⟩ := hwhole (max budget enough) (Nat.le_max_right _ _) stream hpending
    have hpart : Takes (parse (max budget enough)) p e (token :: r ++ [Token.eof pos]) :=
      read_complete _ .expr (hp.mono (Nat.le_max_left _ _)) (ended_cons.2 hended)
    obtain ⟨s', hs', hview'⟩ := hpart stream (by rw [hpending, List.append_assoc])
    rw [hs] at hs'
    cases hs'
    rw [hview] at hview'
    simpa using congrArg (List.length ·.1) hview'

/-- From a list of tokens with the end of the source after it, the tree that is read, if one is,
stands for the longest beginning that the grammar derives. If the grammar derives the list as a
whole, then it is read as a whole, unless the budget runs out, which it does not if it is large. -/
theorem parse_accepts_grammar (source : String) (ts : List Token) (pos : Nat) :
    let stream := TokenStream.ofFeed source ⟨ts ++ [Token.eof pos], none⟩
    (∀ budget e stream', outcome (parse budget) stream = (.ok e, stream') →
      ∃ p rest, ts = p ++ rest ∧ stream'.pending = rest ++ [Token.eof pos] ∧
        Derives .expr p e ∧ ∀ q, q <+: ts → (∃ e', Derives .expr q e') → q.length ≤ p.length) ∧
    ((∃ e, Derives .expr ts e) →
      (∀ budget, RanOut (outcome (parse budget) stream).1 ∨
        ∃ e stream', outcome (parse budget) stream = (.ok e, stream') ∧
          stream'.pending = [Token.eof pos]) ∧
      ∃ enough, ∀ budget, enough ≤ budget → ¬ RanOut (outcome (parse budget) stream).1) := by
  intro stream
  have hpending : stream.pending = ts ++ [Token.eof pos] := rfl
  constructor
  · intro budget e stream' h
    obtain ⟨p, rest, opens, rfl, hrest, hp, hended⟩ := parse_sound hpending h
    refine ⟨p, rest, rfl, hrest, hp.derives, ?_⟩
    rintro q hq ⟨e', hderives⟩
    exact length_le_of_derives hp hended hq hderives
  · rintro ⟨e, hderives⟩
    obtain ⟨enough, e', hwhole⟩ := exists_budget_of_derives hderives pos
    constructor
    · intro budget
      by_cases hran : RanOut (outcome (parse budget) stream).1
      · exact .inl hran
      · right
        have hlarger := Nat.le_max_left budget enough
        obtain ⟨s, hs, hview⟩ := hwhole (max budget enough) (Nat.le_max_right _ _) stream hpending
        have hsame := read_prolongs hlarger .expr stream hran
        exact ⟨e', s, hsame.symm.trans hs, congrArg (·.1) hview⟩
    · refine ⟨enough, fun budget hbudget => ?_⟩
      obtain ⟨s, hs, -⟩ := hwhole budget hbudget stream hpending
      rw [hs]
      exact not_ranOut_ok e'

end LetLang.Parser
