import LetLang.Proofs.Lexing.Broken
import LetLang.Proofs.Parsing.Termination
import LetLang.Proofs.Sessions.Courses
/-!
# Rounds of the loops over texts

A loop over the expressions of a text reads one of them in each round and works on it, until no token
is left or something fails. Nothing but that bounds its rounds, and yet each takes a token, so that
there are no more of them than tokens. Interpreting a text is such a loop.
-/
namespace LetLang

open LetLang.Parser TokenStream

/-- What a loop over expressions does. -/
structure Loop (σ : Type) where
  /-- What is done when the first token of an expression is known. -/
  start : Token → σ → σ
  /-- What is done with an expression, and what it fails with, if it does. -/
  work : Expr → σ → σ × Option Fault

namespace Loop

variable {σ : Type} {loop : Loop σ} {parsing : Nat} {s : TokenStream} {a b : σ} {rounds : Nat}
  {stop : Option Fault}

/-- A loop that begins in a state with a stream, and nothing that bounds its rounds: the number of
rounds that are begun, the state after the last of them, and the fault that stops it if one does. -/
inductive Runs (loop : Loop σ) (parsing : Nat) :
    TokenStream → σ → Nat → σ → Option Fault → Prop
  | noToken {s s₁ a fault} (hpeek : outcome peek s = (.error fault, s₁)) :
      Runs loop parsing s a 0 a (some fault)
  | atEnd {s s₁ a token} (hpeek : outcome peek s = (.ok token, s₁)) (hkind : token.kind = .eof) :
      Runs loop parsing s a 0 a none
  | noExpr {s s₁ s₂ a token fault} (hpeek : outcome peek s = (.ok token, s₁))
      (hkind : token.kind ≠ .eof) (hparse : outcome (parseNext parsing) s₁ = (.error fault, s₂)) :
      Runs loop parsing s a 1 (loop.start token a) (some fault)
  | failed {s s₁ s₂ a b token expr more fault} (hpeek : outcome peek s = (.ok token, s₁))
      (hkind : token.kind ≠ .eof)
      (hparse : outcome (parseNext parsing) s₁ = (.ok (expr, more), s₂))
      (hwork : loop.work expr (loop.start token a) = (b, some fault)) :
      Runs loop parsing s a 1 b (some fault)
  | round {s s₁ s₂ a b c token expr more rounds stop} (hpeek : outcome peek s = (.ok token, s₁))
      (hkind : token.kind ≠ .eof)
      (hparse : outcome (parseNext parsing) s₁ = (.ok (expr, more), s₂))
      (hwork : loop.work expr (loop.start token a) = (b, none))
      (hrest : Runs loop parsing s₂ b rounds c stop) :
      Runs loop parsing s a (rounds + 1) c stop

/-- The number of tokens before the end of the source. -/
def tokensLeft (s : TokenStream) : Nat :=
  s.pending.countP (·.kind ≠ .eof)

theorem tokensLeft_pos {s₁ : TokenStream} {token : Token}
    (hpeek : outcome peek s = (.ok token, s₁)) (hkind : token.kind ≠ .eof) : 0 < tokensLeft s := by
  obtain ⟨rest, hpending, -⟩ := pending_of_peek hpeek
  rw [tokensLeft, hpending, List.countP_cons_of_pos (by simpa using hkind)]
  exact Nat.succ_pos _

/-- A round that reads an expression takes a token. -/
theorem tokensLeft_lt {s₁ s₂ : TokenStream} {token : Token} {found : Expr × Bool}
    (hpeek : outcome peek s = (.ok token, s₁))
    (hparse : outcome (parseNext parsing) s₁ = (.ok found, s₂)) :
    tokensLeft s₂ < tokensLeft s := by
  obtain ⟨rest, hpending, hpending₁⟩ := pending_of_peek hpeek
  obtain ⟨taken, htaken, hsplit, hkinds⟩ := parseNext_takes_tokens hparse
  have hall : taken.countP (·.kind ≠ .eof) = taken.length :=
    List.countP_eq_length.2 fun token htoken => by simpa using hkinds token htoken
  have hlength := List.length_pos_iff.2 htaken
  rw [tokensLeft, tokensLeft, hpending, ← hpending₁, hsplit, List.countP_append, hall]
  omega

/-- The loop comes to an end. -/
theorem exists_runs (loop : Loop σ) (parsing : Nat) (s : TokenStream) (a : σ) :
    ∃ rounds b stop, loop.Runs parsing s a rounds b stop := by
  induction hleft : tokensLeft s using Nat.strong_induction_on generalizing s a with
  | _ left ih =>
    subst hleft
    rcases hpeek : outcome peek s with ⟨fault | token, s₁⟩
    · exact ⟨0, a, some fault, .noToken hpeek⟩
    by_cases hkind : token.kind = .eof
    · exact ⟨0, a, none, .atEnd hpeek hkind⟩
    rcases hparse : outcome (parseNext parsing) s₁ with ⟨fault | ⟨expr, more⟩, s₂⟩
    · exact ⟨1, _, some fault, .noExpr hpeek hkind hparse⟩
    rcases hwork : loop.work expr (loop.start token a) with ⟨b, _ | fault⟩
    · obtain ⟨rounds, c, stop, hrest⟩ := ih _ (tokensLeft_lt hpeek hparse) s₂ b rfl
      exact ⟨rounds + 1, c, stop, .round hpeek hkind hparse hwork hrest⟩
    · exact ⟨1, b, some fault, .failed hpeek hkind hparse hwork⟩

/-- The loop has no more rounds than there are tokens. -/
theorem Runs.rounds_le (h : loop.Runs parsing s a rounds b stop) : rounds ≤ tokensLeft s := by
  induction h with
  | noToken | atEnd => exact Nat.zero_le _
  | noExpr hpeek hkind | failed hpeek hkind => exact tokensLeft_pos hpeek hkind
  | round hpeek _ hparse _ _ ih => exact Nat.succ_le_of_lt (Nat.lt_of_le_of_lt ih
      (tokensLeft_lt hpeek hparse))

end Loop

/-! ### Interpreting a text -/

theorem outcome_atEnd_of_error {s s₁ : TokenStream} {fault : Fault}
    (h : outcome peek s = (.error fault, s₁)) :
    outcome TokenStream.atEnd s = (.error fault, s₁) :=
  outcome_bind_of_error h _

theorem outcome_atEnd_of_eof {s s₁ : TokenStream} {token : Token}
    (h : outcome peek s = (.ok token, s₁)) (hkind : token.kind = .eof) :
    outcome TokenStream.atEnd s = (.ok true, s₁) := by
  rw [TokenStream.atEnd, nextIs, outcome_bind_of_ok h]
  simp [hkind]

theorem outcome_atEnd_of_ne {s s₁ : TokenStream} {token : Token}
    (h : outcome peek s = (.ok token, s₁)) (hkind : token.kind ≠ .eof) :
    outcome TokenStream.atEnd s = (.ok false, s₁) := by
  rw [TokenStream.atEnd, nextIs, outcome_bind_of_ok h]
  simp [hkind]

namespace Program

variable {limits : Limits} {scope : ScopeId} {s : TokenStream} {rounds : List Token}

/-- Interpreting as a loop: its state is the values so far and the store. -/
def loop (limits : Limits) (scope : ScopeId) : Loop (List Value × Store) where
  start _ state := state
  work expr state :=
    match outcome (evaluate limits.evaluation expr scope) state.2 with
    | (.ok value, store) => ((state.1 ++ [value], store), none)
    | (.error fault, store) => ((state.1, store), some fault)

theorem outcome_runStream_of_runs {a b : List Value × Store} {n : Nat} {stop : Option Fault}
    (h : (loop limits scope).Runs limits.parsing s a n b stop)
    (hrounds : s.pending.length ≤ rounds.length) :
    ∃ values, b.1 = a.1 ++ values ∧
      outcome (runStream limits scope rounds s) a.2 = (Course.result ⟨values, stop, b.2⟩, b.2) := by
  rw [runStream.eq_def]
  dsimp only
  induction h generalizing rounds with
  | @noToken s s₁ a fault hpeek =>
    refine ⟨[], (List.append_nil _).symm, ?_⟩
    rw [show Reading.on TokenStream.atEnd s = _ from outcome_atEnd_of_error hpeek]
    rfl
  | @atEnd s s₁ a token hpeek hkind =>
    refine ⟨[], (List.append_nil _).symm, ?_⟩
    rw [show Reading.on TokenStream.atEnd s = _ from outcome_atEnd_of_eof hpeek hkind]
    rfl
  | @noExpr s s₁ s₂ a token fault hpeek hkind hparse =>
    have hmore := outcome_atEnd_of_ne hpeek hkind
    obtain ⟨round, others, rfl⟩ := exists_round hmore hrounds
    refine ⟨[], (List.append_nil _).symm, ?_⟩
    rw [show Reading.on TokenStream.atEnd s = _ from hmore]
    dsimp only
    rw [show Reading.on (parseNext limits.parsing) s₁ = _ from hparse]
    rfl
  | @failed s s₁ s₂ a b token expr more fault hpeek hkind hparse hwork =>
    have hmore := outcome_atEnd_of_ne hpeek hkind
    obtain ⟨round, others, rfl⟩ := exists_round hmore hrounds
    rw [show Reading.on TokenStream.atEnd s = _ from hmore]
    dsimp only
    rw [show Reading.on (parseNext limits.parsing) s₁ = _ from hparse]
    dsimp only [loop] at hwork ⊢
    rcases hvalue : outcome (evaluate limits.evaluation expr scope) a.2 with ⟨_ | value, store⟩
    · rw [hvalue] at hwork
      cases hwork
      exact ⟨[], (List.append_nil _).symm, by rw [outcome_bind_of_error hvalue]; rfl⟩
    · rw [hvalue] at hwork
      cases hwork
  | @round s s₁ s₂ a b c token expr more n stop hpeek hkind hparse hwork hrest ih =>
    have hmore := outcome_atEnd_of_ne hpeek hkind
    have hless := length_pending_lt hmore hparse
    obtain ⟨round, others, rfl⟩ := exists_round hmore hrounds
    rw [List.length_cons] at hrounds
    obtain ⟨values, hvalues, hothers⟩ := @ih others (by omega)
    rw [show Reading.on TokenStream.atEnd s = _ from hmore]
    dsimp only
    rw [show Reading.on (parseNext limits.parsing) s₁ = _ from hparse]
    dsimp only [loop] at hwork ⊢
    rcases hvalue : outcome (evaluate limits.evaluation expr scope) a.2 with ⟨_ | value, store⟩
    · rw [hvalue] at hwork
      cases hwork
    · rw [hvalue] at hwork
      cases hwork
      refine ⟨value :: values, by rw [hvalues, List.append_assoc]; rfl, ?_⟩
      rw [outcome_bind_of_ok hvalue, outcome_bind, runStream.eq_def]
      dsimp only
      rw [hothers]
      cases stop <;> rfl

/-- Interpreting a text comes to what its loop comes to. -/
theorem outcome_interpret_of_runs {text : String} {store store' : Store} {n : Nat}
    {values : List Value} {stop : Option Fault}
    (h : (loop limits scope).Runs limits.parsing (ofText text) ([], store) n (values, store') stop) :
    outcome (interpret limits text scope) store =
      (Course.result ⟨values, stop, store'⟩, store') := by
  obtain ⟨made, hmade, hout⟩ := outcome_runStream_of_runs h (Nat.le_refl _)
  obtain rfl : values = made := hmade
  exact hout

/-! ### Limits that suffice -/

/-- With a limit that suffices, nesting does not stop the reading of a stream. -/
theorem Reads.stop_ne_recursionLimit {parsing : Nat} {exprs : List Expr} {stop : Option Fault}
    (h : Reads parsing s exprs stop) (hlimit : Production.expr.nesting s.pending.length ≤ parsing)
    (hending : s.feed.ending ≠ some .recursionLimit) : stop ≠ some .recursionLimit := by
  have hfront : Advances TokenStream.atEnd := inherited_advances.nextIs _
  induction h with
  | atEnd => simp
  | @noToken s s₁ fault h =>
    have hlasts := Lasts.nextIs [.eof] s (Nat.le_refl _) hending
    rw [show outcome (nextIs [.eof]) s = _ from h, ranOut_error_iff] at hlasts
    exact fun heq => hlasts (Option.some.inj heq)
  | @noExpr s s₁ s₂ fault h hparse =>
    have hlength := hfront.length_le h
    have hending₁ : s₁.feed.ending ≠ some .recursionLimit := (hfront h).1 ▸ hending
    have hlasts := parseNext_lasts hlimit s₁ hlength hending₁
    rw [hparse, ranOut_error_iff] at hlasts
    exact fun heq => hlasts (Option.some.inj heq)
  | @cons s s₁ s₂ expr more exprs stop h hparse hrest ih =>
    have hless := length_pending_lt h hparse
    have hending₁ := (hfront h).1
    have hending₂ := (inherited_advances.parseNext parsing hparse).1
    apply ih
    · unfold Production.nesting at hlimit ⊢
      omega
    · rw [hending₂, hending₁]
      exact hending

theorem ne_recursionLimit_of_broken {source : String} {pos : Nat} {cs : List Char}
    {tokens : List Token} {fault : Fault} (h : Lexer.Broken source pos cs tokens fault) :
    fault ≠ .recursionLimit := by
  induction h with
  | character | numeral => simp
  | token _ _ _ _ _ _ ih => exact ih

/-- The budget for nesting has nothing to do with the tokens of a text. -/
theorem tokenize_ending_ne_recursionLimit (text : String) :
    (Lexer.tokenize text).ending ≠ some .recursionLimit :=
  fun h => ne_recursionLimit_of_broken (Lexer.broken_tokensFrom text 0 text.toList h) rfl

/-- With a limit that suffices, nesting does not stop the reading of a text. -/
theorem expressions_stop_ne_recursionLimit {parsing : Nat} {text : String}
    (h : Production.expr.nesting (Lexer.tokenize text).tokens.length ≤ parsing) :
    (expressions parsing text).2 ≠ some .recursionLimit :=
  (reads_iff.2 rfl).stop_ne_recursionLimit h (tokenize_ending_ne_recursionLimit text)

end Program
end LetLang
