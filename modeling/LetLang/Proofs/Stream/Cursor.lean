import Mathlib.Data.List.Basic
import LetLang.Proofs.Stream
/-!
# A stream as a cursor

What a stream answers is what a cursor over the tokens of its feed answers. The cursor knows how
many tokens were taken, the last of them, and whether the fault after the tokens was met; how far
anyone has looked ahead is no matter of it. The tokens themselves are never changed or lost.
-/
namespace LetLang.TokenStream

/-! ### Requests -/

/-- What a stream may be asked for. -/
inductive Request where
  | peek (k : Nat)
  | advance
  | expect (kinds : List Kind)
  | nextIs (kinds : List Kind)
  | atEnd
  deriving DecidableEq, Repr

inductive Answer where
  | token (token : Token)
  | truth (b : Bool)
  deriving DecidableEq, Repr

def ask : Request → Reading Answer
  | .peek k => return .token (← peekAt k)
  | .advance => return .token (← advance)
  | .expect kinds => return .token (← expect kinds)
  | .nextIs kinds => return .truth (← nextIs kinds)
  | .atEnd => return .truth (← atEnd)

/-- The answers to requests one after the other, also after a fault, and the stream after them. -/
def askAll : List Request → TokenStream → List (Except Fault Answer) × TokenStream
  | [], s => ([], s)
  | request :: requests, s =>
    let (answer, s) := outcome (ask request) s
    let (answers, s) := askAll requests s
    (answer :: answers, s)

/-! ### The cursor -/

structure Cursor where
  /-- The number of tokens that were taken. -/
  index : Nat
  last : Option Token
  /-- Whether the fault after the tokens was met. -/
  spent : Bool
  deriving DecidableEq, Repr

/-- The token with the index, or the end of the source if it comes before. -/
def ahead : List Token → Nat → Option Token
  | [], _ => none
  | token :: _, 0 => some token
  | token :: tokens, n + 1 => if token.kind = .eof then some token else ahead tokens n

namespace Cursor

def start : Cursor :=
  { index := 0, last := none, spent := false }

/-- Takes a token; the end of the source stays. -/
def take (cursor : Cursor) (token : Token) : Cursor :=
  { cursor with
    index := if token.kind = .eof then cursor.index else cursor.index + 1
    last := some token }

/-- The fault that is met beyond the tokens. -/
def fault (feed : Lexer.Feed) (cursor : Cursor) : Fault :=
  if cursor.spent then .exhausted else feed.ending.getD .exhausted

def spend (cursor : Cursor) : Cursor :=
  { cursor with spent := true }

/-- The answer that depends on one token, or the fault if there is none. -/
def answerBy (feed : Lexer.Feed) (cursor : Cursor) (k : Nat)
    (answer : Token → Except Fault Answer × Cursor) : Except Fault Answer × Cursor :=
  match ahead feed.tokens (cursor.index + k) with
  | some token => answer token
  | none => (.error (cursor.fault feed), cursor.spend)

def answer (source : String) (feed : Lexer.Feed) (cursor : Cursor) :
    Request → Except Fault Answer × Cursor
  | .peek k => cursor.answerBy feed k fun token => (.ok (.token token), cursor)
  | .advance => cursor.answerBy feed 0 fun token => (.ok (.token token), cursor.take token)
  | .expect kinds => cursor.answerBy feed 0 fun token =>
    if token.kind ∈ kinds then (.ok (.token token), cursor.take token)
    else (.error (.language (.unexpectedToken kinds token source)), cursor)
  | .nextIs kinds => cursor.answerBy feed 0 fun token =>
    (.ok (.truth (token.kind ∈ kinds)), cursor)
  | .atEnd => cursor.answerBy feed 0 fun token => (.ok (.truth (token.kind = .eof)), cursor)

def answerAll (source : String) (feed : Lexer.Feed) :
    List Request → Cursor → List (Except Fault Answer) × Cursor
  | [], cursor => ([], cursor)
  | request :: requests, cursor =>
    let (answer, cursor) := cursor.answer source feed request
    let (answers, cursor) := answerAll source feed requests cursor
    (answer :: answers, cursor)

end Cursor

theorem ahead_append {taken : List Token} (h : ∀ token ∈ taken, token.kind ≠ .eof)
    (tokens : List Token) (k : Nat) :
    ahead (taken ++ tokens) (taken.length + k) = ahead tokens k := by
  induction taken with
  | nil => simp
  | cons token taken ih =>
    rw [List.forall_mem_cons] at h
    rw [List.cons_append, List.length_cons, Nat.add_right_comm, ahead, if_neg h.1, ih h.2]

theorem ahead_eq_none {tokens : List Token} {k : Nat} (h : ∀ token ∈ tokens, token.kind ≠ .eof)
    (hk : tokens.length ≤ k) : ahead tokens k = none := by
  have hnone := ahead_append h [] (k - tokens.length)
  rw [List.append_nil, Nat.add_sub_cancel' hk] at hnone
  rw [hnone, ahead]

/-- What is ahead can be read off the buffer, if it reaches so far or has the end of the source. -/
theorem ahead_buffer {buffer : List Token} {k : Nat}
    (h : ∀ token ∈ buffer.dropLast, token.kind ≠ .eof)
    (hk : k < buffer.length ∨ buffer.getLast?.any (·.kind = .eof) = true) (rest : List Token) :
    ahead (buffer ++ rest) k = buffer[k]?.or buffer.getLast? := by
  induction buffer generalizing k with
  | nil => simp at hk
  | cons token buffer ih =>
    cases k with
    | zero => rfl
    | succ k =>
      cases buffer with
      | nil =>
        have heof : token.kind = .eof := by simpa using hk
        simp [ahead, heof]
      | cons next buffer =>
        rw [List.dropLast_cons_cons, List.forall_mem_cons] at h
        have hrest : k < (next :: buffer).length ∨
            (next :: buffer).getLast?.any (·.kind = .eof) = true := by
          simpa using hk
        rw [List.cons_append, ahead, if_neg h.1, ih h.2 hrest, List.getElem?_cons_succ,
          List.getLast?_cons_cons]

/-! ### Following the cursor -/

/-- The stream stands where the cursor does: what is pending comes after the tokens that were taken,
of which none is the end of the source, and in the buffer only the last token may be. -/
structure Tracks (source : String) (feed : Lexer.Feed) (cursor : Cursor) (s : TokenStream) :
    Prop where
  source_eq : s.source = source
  taken : ∃ taken, feed.tokens = taken ++ s.pending ∧ taken.length = cursor.index ∧
    ∀ token ∈ taken, token.kind ≠ .eof
  buffered : ∀ token ∈ s.buffer.dropLast, token.kind ≠ .eof
  ending_eq : s.feed.ending = if cursor.spent then none else feed.ending
  last_eq : s.last = cursor.last

variable {source : String} {feed : Lexer.Feed} {cursor : Cursor} {s s' : TokenStream}

theorem tracks_start (source : String) (feed : Lexer.Feed) :
    Tracks source feed .start (ofFeed source feed) :=
  ⟨rfl, ⟨[], rfl, rfl, by simp⟩, by simp [ofFeed], rfl, rfl⟩

namespace Tracks

theorem pending_eq (h : Tracks source feed cursor s) :
    s.pending = feed.tokens.drop cursor.index := by
  obtain ⟨taken, htokens, hlength, -⟩ := h.taken
  rw [htokens, ← hlength, List.drop_left]

theorem ahead_eq (h : Tracks source feed cursor s) (k : Nat) :
    ahead feed.tokens (cursor.index + k) = ahead s.pending k := by
  obtain ⟨taken, htokens, hlength, hkinds⟩ := h.taken
  rw [htokens, ← hlength, ahead_append hkinds]

theorem getD_ending (h : Tracks source feed cursor s) :
    s.feed.ending.getD .exhausted = cursor.fault feed := by
  rw [h.ending_eq, Cursor.fault]
  cases cursor.spent <;> rfl

/-- If there is no fault after the tokens, it makes no difference whether it was met. -/
theorem of_spend (h : Tracks source feed cursor.spend s)
    (hspent : cursor.spent = true ∨ feed.ending = none) : Tracks source feed cursor s := by
  refine ⟨h.source_eq, h.taken, h.buffered, ?_, h.last_eq⟩
  have hnone : s.feed.ending = none := h.ending_eq
  rw [hnone]
  rcases hspent with hspent | hending
  · rw [hspent, if_pos rfl]
  · rw [hending, ite_self]

theorem kind_ne_eof (h : Tracks source feed cursor s) (hend : s.sawEnd = false) :
    ∀ token ∈ s.buffer, token.kind ≠ .eof := by
  intro token htoken heof
  rcases List.eq_nil_or_concat s.buffer with hnil | ⟨others, last, hbuffer⟩
  · simp [hnil] at htoken
  · rw [List.concat_eq_append] at hbuffer
    have hothers := h.buffered
    rw [hbuffer, List.dropLast_concat] at hothers
    rw [hbuffer, List.mem_append, List.mem_singleton] at htoken
    rcases htoken with hmem | rfl
    · exact hothers token hmem heof
    · simp [sawEnd, hbuffer, heof] at hend

/-- Pulling a token moves it into the buffer; if there is none, the fault is met. -/
theorem outcome_pull (h : Tracks source feed cursor s) (hend : s.sawEnd = false) :
    (∃ s', outcome pull s = (.ok (), s') ∧ Tracks source feed cursor s' ∧
      ∃ token, s'.buffer = s.buffer ++ [token]) ∨
    ∃ s', outcome pull s = (.error (cursor.fault feed), s') ∧ Tracks source feed cursor.spend s' ∧
      s'.buffer = s.buffer ∧ s'.pending = s'.buffer ∧ s'.sawEnd = false := by
  have hkinds := h.kind_ne_eof hend
  have hfault := h.getD_ending
  obtain ⟨text, buffer, ⟨tokens, ending⟩, last⟩ := s
  cases tokens with
  | cons token tokens =>
    have hpending : buffer ++ [token] ++ tokens = buffer ++ token :: tokens := by simp
    refine .inl ⟨_, rfl, ⟨h.source_eq, ?_, ?_, h.ending_eq, h.last_eq⟩, token, rfl⟩
    · rw [pending, hpending]
      exact h.taken
    · rw [List.dropLast_concat]
      exact hkinds
  | nil =>
    refine .inr ⟨{ source := text, buffer, feed := ⟨[], none⟩, last }, ?_,
      ⟨h.source_eq, h.taken, h.buffered, rfl, h.last_eq⟩, rfl, by simp [pending], hend⟩
    rw [← hfault]
    cases ending <;> rfl

/-- Fetching tokens goes on until there are enough, or the end of the source is among them, or the
fault is met. -/
theorem outcome_fetch (h : Tracks source feed cursor s) (n : Nat) :
    (∃ s', outcome (fetch n) s = (.ok (), s') ∧ Tracks source feed cursor s' ∧
      s.buffer <+: s'.buffer ∧ (s.buffer.length + n ≤ s'.buffer.length ∨ s'.sawEnd = true)) ∨
    ∃ s', outcome (fetch n) s = (.error (cursor.fault feed), s') ∧
      Tracks source feed cursor.spend s' ∧ s.buffer <+: s'.buffer ∧
      s'.buffer.length < s.buffer.length + n ∧ s'.pending = s'.buffer ∧ s'.sawEnd = false := by
  induction n generalizing s with
  | zero => exact .inl ⟨s, rfl, h, List.prefix_rfl, .inl (Nat.le_refl _)⟩
  | succ n ih =>
    rw [fetch, outcome_bind_of_ok (outcome_get s)]
    cases hend : s.sawEnd with
    | true => exact .inl ⟨s, rfl, h, List.prefix_rfl, .inr hend⟩
    | false =>
      rw [if_neg (by simp)]
      rcases h.outcome_pull hend with ⟨s₁, hpull, h₁, token, hbuffer⟩ |
        ⟨s₁, hpull, h₁, hbuffer, hpending, hend₁⟩
      · have hprefix : s.buffer <+: s₁.buffer := ⟨[token], hbuffer.symm⟩
        have hlength : s₁.buffer.length = s.buffer.length + 1 := by simp [hbuffer]
        rw [outcome_bind_of_ok hpull]
        rcases ih h₁ with ⟨s', hfetch, htracks, hgrows, hreach⟩ |
          ⟨s', hfetch, htracks, hgrows, hshort, hrest⟩
        · rw [hlength, Nat.add_right_comm] at hreach
          exact .inl ⟨s', hfetch, htracks, hprefix.trans hgrows, hreach⟩
        · rw [hlength, Nat.add_right_comm] at hshort
          exact .inr ⟨s', hfetch, htracks, hprefix.trans hgrows, hshort, hrest⟩
      · rw [outcome_bind_of_error hpull]
        refine .inr ⟨s₁, rfl, h₁, ?_, ?_, hpending, hend₁⟩
        · exact hbuffer ▸ List.prefix_rfl
        · rw [hbuffer]
          omega

/-- Looking ahead gives the token that is ahead, or the fault if there is none. -/
theorem outcome_peekAt (h : Tracks source feed cursor s) (k : Nat) :
    match ahead feed.tokens (cursor.index + k) with
    | some token => ∃ s', outcome (peekAt k) s = (.ok token, s') ∧ Tracks source feed cursor s' ∧
      s.buffer <+: s'.buffer ∧ s'.buffer ≠ []
    | none => ∃ s', outcome (peekAt k) s = (.error (cursor.fault feed), s') ∧
      Tracks source feed cursor.spend s' ∧ s.buffer <+: s'.buffer := by
  rw [peekAt, outcome_bind_of_ok (outcome_get s)]
  rcases h.outcome_fetch (k + 1 - s.buffer.length) with ⟨s', hfetch, htracks, hgrows, hreach⟩ |
    ⟨s', hfetch, htracks, hgrows, hshort, hpending, hend⟩
  · have hlength := hgrows.length_le
    have hk : k < s'.buffer.length ∨ s'.sawEnd = true := by
      rcases hreach with hreach | hend
      · exact .inl (by omega)
      · exact .inr hend
    have hne : s'.buffer ≠ [] := by
      rintro hnil
      simp [hnil, sawEnd] at hk
    have hahead := htracks.ahead_eq k
    rw [pending, ahead_buffer htracks.buffered hk] at hahead
    rw [outcome_bind_of_ok hfetch, outcome_bind_of_ok (outcome_get s'), hahead]
    cases htoken : s'.buffer[k]?.or s'.buffer.getLast? with
    | some token => exact ⟨s', rfl, htracks, hgrows, hne⟩
    | none =>
      rw [Option.or_eq_none_iff, List.getLast?_eq_none_iff] at htoken
      exact absurd htoken.2 hne
  · have hkinds := htracks.kind_ne_eof hend
    have hle : s'.buffer.length ≤ k := by
      have := hgrows.length_le
      omega
    have hahead := htracks.ahead_eq k
    rw [hpending, ahead_eq_none hkinds hle] at hahead
    have hindex : cursor.spend.index = cursor.index := rfl
    rw [hindex] at hahead
    rw [outcome_bind_of_error hfetch, hahead]
    exact ⟨s', rfl, htracks, hgrows⟩

/-- A token that is ahead by nothing is at the beginning of the buffer, once it was looked at. -/
theorem buffer_eq (h : Tracks source feed cursor s) {token : Token} (hne : s.buffer ≠ [])
    (htoken : ahead feed.tokens cursor.index = some token) : ∃ rest, s.buffer = token :: rest := by
  obtain ⟨first, rest, hbuffer⟩ := List.exists_cons_of_ne_nil hne
  have hahead := h.ahead_eq 0
  rw [Nat.add_zero, htoken, pending, hbuffer, List.cons_append, ahead, Option.some.injEq] at hahead
  exact ⟨rest, by rw [hbuffer, hahead]⟩

/-- Taking the first token of the buffer moves the cursor; the end of the source stays. -/
theorem take (h : Tracks source feed cursor s) {token : Token} {rest : List Token}
    (hbuffer : s.buffer = token :: rest) :
    Tracks source feed (cursor.take token)
      { s with
        buffer := if token.kind = .eof then s.buffer else s.buffer.tail
        last := some token } := by
  by_cases heof : token.kind = .eof
  · rw [Cursor.take, if_pos heof, if_pos heof]
    exact ⟨h.source_eq, h.taken, h.buffered, h.ending_eq, rfl⟩
  · rw [Cursor.take, if_neg heof, if_neg heof, hbuffer, List.tail_cons]
    refine ⟨h.source_eq, ?_, ?_, h.ending_eq, rfl⟩
    · obtain ⟨taken, htokens, hlength, hkinds⟩ := h.taken
      refine ⟨taken ++ [token], ?_, by simp [hlength], ?_⟩
      · rw [htokens, pending, hbuffer]
        simp [pending]
      · simpa [or_imp, forall_and, heof] using hkinds
    · intro other hother
      have hmem := h.buffered other
      rw [hbuffer] at hmem
      cases rest with
      | nil => simp at hother
      | cons next rest => exact hmem (by simp [List.dropLast_cons_cons, hother])

end Tracks

/-- The reader answers from the stream what the cursor says, and leaves the stream where the cursor
is after it. A fault leaves in the buffer what was there. -/
def Answers (source : String) (feed : Lexer.Feed) (s : TokenStream) (x : Reading Answer)
    (result : Except Fault Answer × Cursor) : Prop :=
  ∃ s', outcome x s = (result.1, s') ∧ Tracks source feed result.2 s' ∧
    ∀ fault, result.1 = .error fault → s.buffer <+: s'.buffer

namespace Tracks

/-- A reader that begins with a look ahead meets the fault there, or goes on with the token. -/
theorem answers_peekAt (h : Tracks source feed cursor s) {k : Nat}
    {f : Token → Reading Answer} {answer : Token → Except Fault Answer × Cursor}
    (hf : ∀ token s', ahead feed.tokens (cursor.index + k) = some token →
      Tracks source feed cursor s' → s'.buffer ≠ [] →
        Answers source feed s' (f token) (answer token)) :
    Answers source feed s (peekAt k >>= f) (cursor.answerBy feed k answer) := by
  have hpeek := h.outcome_peekAt k
  rw [Cursor.answerBy]
  cases hahead : ahead feed.tokens (cursor.index + k) with
  | some token =>
    rw [hahead] at hpeek
    obtain ⟨s₁, hpeek, htracks, hgrows, hne⟩ := hpeek
    obtain ⟨s', hanswer, htracks', hkept⟩ := hf token s₁ hahead htracks hne
    exact ⟨s', by rw [outcome_bind_of_ok hpeek, hanswer], htracks',
      fun fault hfault => hgrows.trans (hkept fault hfault)⟩
  | none =>
    rw [hahead] at hpeek
    obtain ⟨s', hpeek, htracks, hgrows⟩ := hpeek
    exact ⟨s', outcome_bind_of_error hpeek f, htracks, fun _ _ => hgrows⟩

theorem answers_pure (h : Tracks source feed cursor s) (answer : Answer) :
    Answers source feed s (pure answer) (.ok answer, cursor) :=
  ⟨s, rfl, h, fun _ hfault => by cases hfault⟩

theorem answers_advance (h : Tracks source feed cursor s) :
    Answers source feed s (return .token (← advance))
      (cursor.answerBy feed 0 fun token => (.ok (.token token), cursor.take token)) := by
  rw [advance, peek, bind_assoc]
  refine h.answers_peekAt fun token s' htoken htracks hne => ?_
  obtain ⟨rest, hbuffer⟩ := htracks.buffer_eq hne htoken
  exact ⟨_, rfl, htracks.take hbuffer, fun _ hfault => by cases hfault⟩

/-- Every request is answered as the cursor answers it. -/
theorem answers (h : Tracks source feed cursor s) (request : Request) :
    Answers source feed s (ask request) (cursor.answer source feed request) := by
  cases request with
  | peek k => exact h.answers_peekAt fun token s' _ htracks _ => htracks.answers_pure _
  | advance => exact h.answers_advance
  | expect kinds =>
    rw [ask, expect, peek, bind_assoc]
    refine h.answers_peekAt fun token s' htoken htracks _ => ?_
    by_cases hmem : token.kind ∈ kinds
    · have hadvance := htracks.answers_advance
      rw [Cursor.answerBy, htoken] at hadvance
      rw [if_pos hmem, if_pos hmem]
      exact hadvance
    · rw [if_neg hmem, if_neg hmem]
      refine ⟨s', ?_, htracks, fun _ _ => List.prefix_rfl⟩
      rw [← htracks.source_eq]
      rfl
  | nextIs kinds =>
    rw [ask, nextIs, peek, bind_assoc]
    exact h.answers_peekAt fun token s' _ htracks _ => htracks.answers_pure _
  | atEnd =>
    rw [ask, atEnd, nextIs, peek, bind_assoc]
    refine h.answers_peekAt fun token s' _ htracks _ => ?_
    have hsame : decide (token.kind ∈ [Kind.eof]) = decide (token.kind = .eof) := by simp
    rw [← hsame]
    exact htracks.answers_pure _

theorem answersAll (h : Tracks source feed cursor s) (requests : List Request) :
    (askAll requests s).1 = (Cursor.answerAll source feed requests cursor).1 ∧
      Tracks source feed (Cursor.answerAll source feed requests cursor).2
        (askAll requests s).2 := by
  induction requests generalizing cursor s with
  | nil => exact ⟨rfl, h⟩
  | cons request requests ih =>
    obtain ⟨s', hanswer, htracks, -⟩ := h.answers request
    obtain ⟨hanswers, hrest⟩ := ih htracks
    rw [askAll, Cursor.answerAll, hanswer]
    exact ⟨congrArg _ hanswers, hrest⟩

/-- Looking ahead moves the cursor only by meeting the fault of the feed. -/
theorem peek_spends (h : Tracks source feed cursor s) (k : Nat) :
    (∃ fault, feed.ending = some fault ∧ (outcome (peekAt k) s).1 = .error fault) ∨
      Tracks source feed cursor (outcome (peekAt k) s).2 := by
  have hpeek := h.outcome_peekAt k
  cases hahead : ahead feed.tokens (cursor.index + k) with
  | some token =>
    rw [hahead] at hpeek
    obtain ⟨s', hpeek, htracks, -⟩ := hpeek
    rw [hpeek]
    exact .inr htracks
  | none =>
    rw [hahead] at hpeek
    obtain ⟨s', hpeek, htracks, -⟩ := hpeek
    rw [hpeek]
    cases hspent : cursor.spent with
    | true => exact .inr (htracks.of_spend (.inl hspent))
    | false =>
      cases hending : feed.ending with
      | none => exact .inr (htracks.of_spend (.inr hending))
      | some fault => exact .inl ⟨fault, rfl, by simp [Cursor.fault, hspent, hending]⟩

end Tracks

namespace Cursor

theorem answerBy_of_error {k : Nat} {answer : Token → Except Fault Answer × Cursor}
    {fault : Fault} (h : (cursor.answerBy feed k answer).1 = .error fault)
    (hanswer : ∀ token, (answer token).1 = .error fault → (answer token).2 = cursor) :
    (cursor.answerBy feed k answer).2 = cursor ∨
      (cursor.answerBy feed k answer).2 = cursor.spend := by
  rw [answerBy] at h ⊢
  cases hahead : ahead feed.tokens (cursor.index + k) with
  | some token =>
    rw [hahead] at h
    exact .inl (hanswer token h)
  | none => exact .inr rfl

/-- A fault moves the cursor only by being met. -/
theorem answer_of_error {request : Request} {fault : Fault}
    (h : (cursor.answer source feed request).1 = .error fault) :
    (cursor.answer source feed request).2 = cursor ∨
      (cursor.answer source feed request).2 = cursor.spend := by
  cases request with
  | peek | advance | nextIs | atEnd =>
    refine answerBy_of_error h fun token hok => ?_
    cases hok
  | expect kinds =>
    refine answerBy_of_error h fun token herror => ?_
    split at herror
    · cases herror
    · next hmem => rw [if_neg hmem]

end Cursor

/-- A stream is a cursor over the tokens of its feed. Whatever it is asked for, in whatever order
and also after faults, it answers as the cursor does; what is pending are the tokens from the cursor on,
and the last token taken is the same. A look ahead makes no difference to later answers, unless it
meets the fault of the feed. A request that fails takes no token, and loses none that was looked
at. -/
theorem stream_follows_cursor (source : String) (feed : Lexer.Feed) (requests : List Request) :
    let stream := askAll requests (ofFeed source feed)
    let machine := Cursor.answerAll source feed requests .start
    let s := stream.2
    let cursor := machine.2
    stream.1 = machine.1 ∧ s.pending = feed.tokens.drop cursor.index ∧ s.last = cursor.last ∧
      (∀ k,
        (∃ fault, feed.ending = some fault ∧ (outcome (peekAt k) s).1 = .error fault) ∨
          ∀ later, (askAll later (outcome (peekAt k) s).2).1 = (askAll later s).1) ∧
      ∀ request fault s', outcome (ask request) s = (.error fault, s') →
        (cursor.answer source feed request).2.index = cursor.index ∧
          (cursor.answer source feed request).2.last = cursor.last ∧
          s'.pending = s.pending ∧ s'.last = s.last ∧ s.buffer <+: s'.buffer := by
  intro stream machine s cursor
  obtain ⟨hanswers, htracks⟩ := (tracks_start source feed).answersAll requests
  refine ⟨hanswers, htracks.pending_eq, htracks.last_eq, ?_, ?_⟩
  · intro k
    refine (htracks.peek_spends k).imp_right fun hpeeked later => ?_
    rw [(hpeeked.answersAll later).1, (htracks.answersAll later).1]
  · intro request fault s' hrequest
    obtain ⟨after, hanswer, htracks', hkept⟩ := htracks.answers request
    rw [hrequest] at hanswer
    obtain ⟨herror, rfl⟩ := Prod.mk.inj hanswer
    have hmoved : (cursor.answer source feed request).2.index = cursor.index ∧
        (cursor.answer source feed request).2.last = cursor.last := by
      rcases Cursor.answer_of_error herror.symm with hsame | hspent
      · rw [hsame]
        exact ⟨rfl, rfl⟩
      · rw [hspent]
        exact ⟨rfl, rfl⟩
    refine ⟨hmoved.1, hmoved.2, ?_, ?_, hkept fault herror.symm⟩
    · rw [htracks'.pending_eq, htracks.pending_eq, hmoved.1]
    · rw [htracks'.last_eq, htracks.last_eq, hmoved.2]

/-- A look far ahead uses up the fault of the feed, and the tokens before it are still there. -/
theorem stream_follows_cursor_beyond_fault :
    let feed := Lexer.tokenize "1 x #"
    let s := (askAll [.peek 7, .advance] (ofFeed "1 x #" feed)).2
    feed.ending = some (.language (.unexpectedCharacter "1 x #" 4 '#')) ∧
      (askAll [.peek 7, .advance, .expect [.int], .advance, .peek 0] (ofFeed "1 x #" feed)).1 =
        [.error (.language (.unexpectedCharacter "1 x #" 4 '#')),
          .ok (.token ⟨.int, "1", 0⟩),
          .error (.language (.unexpectedToken [.int] ⟨.ident, "x", 2⟩ "1 x #")),
          .ok (.token ⟨.ident, "x", 2⟩), .error .exhausted] ∧
      (outcome (ask (.expect [.int])) s).1 =
        .error (.language (.unexpectedToken [.int] ⟨.ident, "x", 2⟩ "1 x #")) ∧
      (outcome (ask (.expect [.int])) s).2.pending = s.pending := by
  intro feed s
  have hanswers := (stream_follows_cursor "1 x #" feed
    [.peek 7, .advance, .expect [.int], .advance, .peek 0]).1
  have hraised : (outcome (ask (.expect [.int])) s).1 =
      .error (.language (.unexpectedToken [.int] ⟨.ident, "x", 2⟩ "1 x #")) := by
    decide +kernel
  have hfailed := (stream_follows_cursor "1 x #" feed [.peek 7, .advance]).2.2.2.2
    _ _ _ (Prod.ext hraised rfl)
  refine ⟨by decide +kernel, ?_, hraised, hfailed.2.2.1⟩
  rw [hanswers]
  decide +kernel

end LetLang.TokenStream
