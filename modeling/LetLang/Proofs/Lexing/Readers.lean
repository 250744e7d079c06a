import LetLang.Proofs.Lexing.Broken
/-!
# Readers

A reader hands out the tokens of its text one by one, and all of them from the beginning as often
as it is asked to. The two do not get in each other's way: what it hands out next depends only on
how often it was asked for the next one. At the end of the source, and at a fault, it stays.
-/
namespace LetLang.Lexer

/-- What a reader may be asked for: its next token, or all tokens of its text. -/
inductive Request where
  | next
  | all
  deriving DecidableEq, Repr

inductive Answer where
  | next (result : Except Fault Token)
  | all (feed : Feed)

def ask : Request → Lexer → Answer × Lexer
  | .next, lexer => (.next lexer.next.1, lexer.next.2)
  | .all, lexer => (.all lexer.feed, lexer)

/-- The answers to requests one after the other, also after a fault, and the reader after them. -/
def askAll : List Request → Lexer → List Answer × Lexer
  | [], lexer => ([], lexer)
  | request :: requests, lexer =>
    let (answer, lexer) := ask request lexer
    let (answers, lexer) := askAll requests lexer
    (answer :: answers, lexer)

/-- What comes after `n` tokens: the next one, and beyond the last one the fault, or the end of the
source once more. -/
def Feed.nth (feed : Feed) (n : Nat) : Except Fault Token :=
  match feed.tokens[n]?, feed.ending, feed.tokens.getLast? with
  | some token, _, _ => .ok token
  | none, some fault, _ => .error fault
  | none, none, some last => .ok last
  | none, none, none => .error .exhausted

/-- The answers of one who has the whole feed and counts how often the next token was asked for. -/
def Feed.answers (feed : Feed) : List Request → Nat → List Answer
  | [], _ => []
  | .next :: requests, n => .next (feed.nth n) :: feed.answers requests (n + 1)
  | .all :: requests, n => .all feed :: feed.answers requests n

/-- No token can be taken at the place, which only spaces and comments separate from `start`, and
the fault says why: a character begins no token, or the longest one is a numeral with too many
digits. -/
structure Stuck (text : String) (start place : Nat) (fault : Fault) : Prop where
  le : start ≤ place
  gap : Gap (slice text.toList start place) (text.toList.drop place)
  maximal : ¬ StartsItem (text.toList.drop place)
  cause :
    (∃ c, text.toList[place]? = some c ∧
      fault = .language (.unexpectedCharacter text place c) ∧
      ∀ kind, ∀ word ∈ Kind.language kind, ¬ word <+: text.toList.drop place) ∨
    ∃ digits, Munched (text.toList.drop place) .int digits ∧
      Numeral.digitLimit < digits.length ∧ fault = .numeralTooLong digits.length

/-! ### One token -/

/-- The tokens from where the reader stands. -/
def remaining (lexer : Lexer) : Feed :=
  tokensFrom lexer.text lexer.pos (lexer.text.toList.drop lexer.pos)

/-- The reader after the gap before it. -/
def skipped (lexer : Lexer) : Lexer :=
  { lexer with pos := lexer.pos + gapWidth (lexer.text.toList.drop lexer.pos) }

variable {text : String} {lexer : Lexer}

@[simp] theorem skipped_text (lexer : Lexer) : lexer.skipped.text = lexer.text := rfl

theorem skipped_pos_le (h : lexer.pos ≤ lexer.text.length) :
    lexer.skipped.pos ≤ lexer.text.length := by
  have hle := gapWidth_le (lexer.text.toList.drop lexer.pos)
  rw [List.length_drop, String.length_toList] at hle
  simp only [skipped]
  omega

/-- A gap is skipped as a whole, so that there is none where it ends. -/
theorem skipped_skipped (lexer : Lexer) : lexer.skipped.skipped = lexer.skipped := by
  obtain ⟨gap, rest, -, hstarts, hcs, hwidth⟩ := exists_gap (lexer.text.toList.drop lexer.pos)
  have hdrop : lexer.text.toList.drop (lexer.pos + gap.length) = rest := by
    rw [← List.drop_drop, hcs, List.drop_left]
  have hnone := gapWidth_of_none (gapItemWidth_eq_none_iff.2 hstarts)
  simp only [skipped, hwidth, hdrop, hnone, Nat.add_zero]

theorem next_eq (lexer : Lexer) :
    lexer.next =
      match scan lexer.text lexer.skipped.pos (lexer.text.toList.drop lexer.skipped.pos) with
      | .error fault => (.error fault, lexer.skipped)
      | .ok token => (.ok token, { lexer with pos := token.stop }) := by
  have hrest : (lexer.text.toList.drop lexer.pos).drop
      (gapWidth (lexer.text.toList.drop lexer.pos)) =
      lexer.text.toList.drop lexer.skipped.pos := List.drop_drop
  rw [← hrest]
  rfl

theorem stuck_of_scan {fault : Fault}
    (h : scan lexer.text lexer.skipped.pos (lexer.text.toList.drop lexer.skipped.pos) =
      .error fault) : Stuck lexer.text lexer.pos lexer.skipped.pos fault := by
  obtain ⟨gap, rest, hgap, hstarts, hcs, hwidth⟩ := exists_gap (lexer.text.toList.drop lexer.pos)
  have hplace : lexer.skipped.pos = lexer.pos + gap.length := by rw [skipped, hwidth]
  have hdrop : lexer.text.toList.drop lexer.skipped.pos = rest := by
    rw [hplace, ← List.drop_drop, hcs, List.drop_left]
  have hslice : slice lexer.text.toList lexer.pos lexer.skipped.pos = gap := by
    rw [slice, hplace, List.drop_take, hcs, Nat.add_sub_cancel_left, List.take_left]
  refine ⟨Nat.le_add_right _ _, by rwa [hslice, hdrop], by rwa [hdrop], ?_⟩
  rcases scan_error h with ⟨c, more, hmore, rfl, hnone⟩ | ⟨digits, more, hmore, rfl, hint, hlong⟩
  · rw [← hmore] at hnone
    refine .inl ⟨c, ?_, rfl, hnone⟩
    rw [← List.head?_drop, hmore, List.head?_cons]
  · rw [← hmore] at hint
    exact .inr ⟨digits, hint, hlong, rfl⟩

/-- The reader meets a fault and stays before it, or is at the end, or takes a token. -/
theorem next_cases (h : lexer.pos ≤ lexer.text.length) :
    (∃ fault, lexer.next = (.error fault, lexer.skipped) ∧
      Stuck lexer.text lexer.pos lexer.skipped.pos fault ∧
      lexer.remaining = { tokens := [], ending := some fault }) ∨
    (lexer.next = (.ok (Token.eof lexer.text.length), { lexer with pos := lexer.text.length }) ∧
      lexer.remaining = { tokens := [Token.eof lexer.text.length], ending := none }) ∨
    ∃ token, token.kind ≠ .eof ∧ lexer.next = (.ok token, { lexer with pos := token.stop }) ∧
      lexer.pos < token.stop ∧ token.stop ≤ lexer.text.length ∧
      lexer.remaining = (remaining { lexer with pos := token.stop }).cons token := by
  rw [next_eq]
  have hplace := skipped_pos_le h
  have hcode : (lexer.text.toList.drop lexer.pos).drop
      (gapWidth (lexer.text.toList.drop lexer.pos)) = lexer.text.toList.drop lexer.skipped.pos := by
    rw [List.drop_drop, skipped]
  cases hscan : scan lexer.text lexer.skipped.pos (lexer.text.toList.drop lexer.skipped.pos) with
  | error fault =>
    refine .inl ⟨fault, rfl, stuck_of_scan hscan, tokensFrom_of_error ?_⟩
    rw [hcode]
    exact hscan
  | ok token =>
    have hpos : token.pos = lexer.skipped.pos := scan_pos hscan
    have hfeed : scan lexer.text (lexer.pos + gapWidth (lexer.text.toList.drop lexer.pos))
        ((lexer.text.toList.drop lexer.pos).drop
          (gapWidth (lexer.text.toList.drop lexer.pos))) = .ok token := by
      rw [hcode]
      exact hscan
    by_cases hkind : token.kind = .eof
    · have hnil := scan_eof hscan hkind
      have hend : lexer.skipped.pos = lexer.text.length := by
        have hle := List.drop_eq_nil_iff.1 hnil
        rw [String.length_toList] at hle
        omega
      have htoken : token = Token.eof lexer.text.length := by
        rw [hnil, hend] at hscan
        cases hscan
        rfl
      subst htoken
      exact .inr (.inl ⟨rfl, tokensFrom_of_eof hfeed hkind⟩)
    · have hwidth := stop_add_length_drop hfeed hkind
      have hne := (scan_text_pos hfeed hkind).1
      have hstop : token.stop = lexer.skipped.pos + token.text.length := by
        rw [Token.stop, hpos]
      have hle : lexer.pos ≤ lexer.skipped.pos := Nat.le_add_right _ _
      simp only [List.length_drop, String.length_toList] at hwidth
      refine .inr (.inr ⟨token, hkind, rfl, by omega, by omega, ?_⟩)
      rw [remaining, tokensFrom_of_ok hfeed hkind, remaining, hcode, List.drop_drop, ← hstop]

/-! ### Tokens one after the other -/

theorem Feed.nth_cons {feed : Feed} (h : feed.tokens ≠ [] ∨ feed.ending ≠ none) (token : Token)
    (n : Nat) : (feed.cons token).nth (n + 1) = feed.nth n := by
  obtain ⟨tokens, ending⟩ := feed
  cases tokens with
  | nil =>
    obtain ⟨fault, rfl⟩ := Option.ne_none_iff_exists'.1 (h.resolve_left fun hne => hne rfl)
    rfl
  | cons first tokens => simp [nth, cons, List.getLast?_cons_cons]

/-- There is a token left, or a fault. -/
theorem remaining_ne (lexer : Lexer) :
    lexer.remaining.tokens ≠ [] ∨ lexer.remaining.ending ≠ none := by
  rcases tokensFrom_shape lexer.text lexer.pos (lexer.text.toList.drop lexer.pos) with
    ⟨tokens, last, hfeed, -⟩ | ⟨hending, -⟩
  · exact .inl (by simp [remaining, hfeed])
  · exact .inr hending

@[simp] theorem Feed.nth_fault (fault : Fault) (n : Nat) :
    Feed.nth { tokens := [], ending := some fault } n = .error fault := by
  simp [nth]

@[simp] theorem Feed.nth_last (last : Token) (n : Nat) :
    Feed.nth { tokens := [last], ending := none } n = .ok last := by
  cases n <;> simp [nth]

theorem remaining_skipped (lexer : Lexer) : lexer.skipped.remaining = lexer.remaining := by
  have hpos : lexer.skipped.skipped.pos = lexer.skipped.pos := by rw [skipped_skipped]
  apply tokensFrom_congr hpos
  simp only [List.drop_drop]
  exact congrArg (lexer.text.toList.drop ·) hpos

theorem drop_length_toList (text : String) : text.toList.drop text.length = [] := by
  rw [← String.length_toList, List.drop_length]

/-- At the end of the text there is the end of the source, and the reader stays there. -/
theorem next_end (text : String) :
    next { text, pos := text.length } =
      (.ok (Token.eof text.length), { text, pos := text.length }) := by
  have hgap : gapWidth [] = 0 := gapWidth_of_none rfl
  simp [next, drop_length_toList, hgap, scan, Token.stop, Token.eof]

theorem remaining_end (text : String) :
    remaining { text, pos := text.length } =
      { tokens := [Token.eof text.length], ending := none } := by
  have hgap : gapWidth [] = 0 := gapWidth_of_none rfl
  rw [remaining, drop_length_toList]
  exact tokensFrom_of_eof (by rw [hgap]; rfl) rfl

/-- Before a fault the reader stays. -/
theorem next_skipped_of_error {fault : Fault} (h : lexer.next = (.error fault, lexer.skipped)) :
    lexer.skipped.next = (.error fault, lexer.skipped) := by
  rw [next_eq] at h ⊢
  rw [skipped_skipped, skipped_text]
  cases hscan : scan lexer.text lexer.skipped.pos (lexer.text.toList.drop lexer.skipped.pos) with
  | error found =>
    rw [hscan] at h
    exact h
  | ok token =>
    rw [hscan] at h
    cases h

/-- The reader was asked for the next token `n` times. -/
structure Stands (text : String) (n : Nat) (lexer : Lexer) : Prop where
  text_eq : lexer.text = text
  pos_le : lexer.pos ≤ text.length
  nth_eq : ∀ k, lexer.remaining.nth k = (tokenize text).nth (n + k)

theorem stands_ofText (text : String) : Stands text 0 (ofText text) := by
  refine ⟨rfl, Nat.zero_le _, fun k => ?_⟩
  rw [Nat.zero_add]
  rfl

/-- Asked for the next token, the reader gives the one that has its turn, and moves on. -/
theorem Stands.step {n : Nat} (h : Stands text n lexer) :
    lexer.next.1 = (tokenize text).nth n ∧ Stands text (n + 1) lexer.next.2 ∧
      lexer.pos ≤ lexer.next.2.pos := by
  obtain ⟨rfl, hle, hnth⟩ := h
  have hnow := hnth 0
  have hlater : ∀ k, lexer.remaining.nth (k + 1) = (tokenize lexer.text).nth (n + 1 + k) := by
    intro k
    rw [hnth, Nat.add_assoc, Nat.add_comm k 1]
  rcases next_cases hle with ⟨fault, hnext, hstuck, hfeed⟩ | ⟨hnext, hfeed⟩ |
    ⟨token, hkind, hnext, hlt, hstop, hfeed⟩
  · rw [hnext]
    refine ⟨?_, ⟨rfl, skipped_pos_le hle, fun k => ?_⟩, hstuck.le⟩
    · rw [← Nat.add_zero n, ← hnow, hfeed, Feed.nth_fault]
    · rw [remaining_skipped, ← hlater, hfeed, Feed.nth_fault, Feed.nth_fault]
  · rw [hnext]
    refine ⟨?_, ⟨rfl, Nat.le_refl _, fun k => ?_⟩, hle⟩
    · rw [← Nat.add_zero n, ← hnow, hfeed, Feed.nth_last]
    · rw [remaining_end, ← hlater, hfeed, Feed.nth_last, Feed.nth_last]
  · rw [hnext]
    refine ⟨?_, ⟨rfl, hstop, fun k => ?_⟩, Nat.le_of_lt hlt⟩
    · rw [← Nat.add_zero n, ← hnow, hfeed]
      rfl
    · rw [← hlater, hfeed, Feed.nth_cons (remaining_ne _)]

/-! ### Requests one after the other -/

/-- The text that a reader reads never changes, so that all its tokens are always the same. -/
theorem Stands.run {n : Nat} (h : Stands text n lexer) (requests : List Request) :
    (askAll requests lexer).1 = (tokenize text).answers requests n ∧
      Stands text (n + requests.count .next) (askAll requests lexer).2 ∧
      lexer.pos ≤ (askAll requests lexer).2.pos := by
  induction requests generalizing n lexer with
  | nil => exact ⟨rfl, h, Nat.le_refl _⟩
  | cons request requests ih =>
    cases request with
    | next =>
      obtain ⟨hanswer, hstands, hle⟩ := h.step
      obtain ⟨hanswers, hlast, hle'⟩ := ih hstands
      refine ⟨?_, ?_, Nat.le_trans hle hle'⟩
      · simp only [askAll, ask, Feed.answers, hanswer, hanswers]
      · rw [List.count_cons_self, ← Nat.add_assoc, Nat.add_right_comm]
        exact hlast
    | all =>
      obtain ⟨hanswers, hlast, hle⟩ := ih h
      have hfeed : lexer.feed = tokenize text := by rw [feed, h.text_eq]
      refine ⟨?_, ?_, hle⟩
      · simp only [askAll, ask, Feed.answers, hfeed, hanswers]
      · rw [List.count_cons_of_ne (by decide)]
        exact hlast

/-- The answer of a reader that stays where it is. -/
def repeated (feed : Feed) (result : Except Fault Token) : Request → Answer
  | .next => .next result
  | .all => .all feed

theorem askAll_of_next_eq {result : Except Fault Token} (h : lexer.next = (result, lexer))
    (requests : List Request) :
    askAll requests lexer = (requests.map (repeated (tokenize lexer.text) result), lexer) := by
  induction requests with
  | nil => rfl
  | cons request requests ih =>
    cases request with
    | next => simp only [askAll, ask, h, ih, List.map_cons, repeated]
    | all => simp only [askAll, ask, ih, List.map_cons, repeated, feed]

/-- What comes next is a token, and the reader moves past it; or it is the end of the source or a
fault, and the reader stays there for ever. -/
theorem Stands.moves_or_stays {n : Nat} (h : Stands text n lexer) :
    (∃ token, lexer.next.1 = .ok token ∧ token.kind ≠ .eof ∧ lexer.pos < lexer.next.2.pos ∧
      lexer.next.2.pos = token.stop) ∨
    ((lexer.next.1 = .ok (Token.eof text.length) ∧ lexer.next.2.pos = text.length ∨
        ∃ fault, lexer.next.1 = .error fault ∧ Stuck text lexer.pos lexer.next.2.pos fault) ∧
      ∀ later, askAll later lexer.next.2 =
        (later.map (repeated (tokenize text) lexer.next.1), lexer.next.2)) := by
  obtain ⟨rfl, hle, -⟩ := h
  rcases next_cases hle with ⟨fault, hnext, hstuck, -⟩ | ⟨hnext, -⟩ |
    ⟨token, hkind, hnext, hlt, -⟩
  · rw [hnext]
    exact .inr ⟨.inr ⟨fault, rfl, hstuck⟩, askAll_of_next_eq (next_skipped_of_error hnext)⟩
  · rw [hnext]
    exact .inr ⟨.inl ⟨rfl, rfl⟩, askAll_of_next_eq (next_end lexer.text)⟩
  · rw [hnext]
    exact .inl ⟨token, rfl, hkind, hlt, rfl⟩

/-- The tokens of a text end with the one end of the source, at the length of the text, or a fault
cuts them off before it. -/
theorem tokenize_shape (text : String) :
    ∃ tokens, (∀ token ∈ tokens, token.kind ≠ .eof) ∧
      (tokenize text = { tokens := tokens ++ [Token.eof text.length], ending := none } ∨
        ∃ fault, tokenize text = { tokens, ending := some fault }) := by
  cases hending : (tokenize text).ending with
  | none =>
    have hsplits := splits_tokensFrom text 0 text.toList hending
    obtain ⟨-, -, -, tokens, htokens, hkinds⟩ := @Splits.places [] _ _ _ hsplits rfl
    rw [List.nil_append, String.length_toList] at htokens
    refine ⟨tokens, fun token hmem => (hkinds token hmem).1, .inl ?_⟩
    rw [← hending, ← htokens]
    rfl
  | some fault =>
    rcases tokensFrom_shape text 0 text.toList with ⟨tokens, last, hfeed, -⟩ | ⟨-, hkinds⟩
    · rw [tokenize, hfeed] at hending
      cases hending
    · refine ⟨_, hkinds, .inr ⟨fault, ?_⟩⟩
      rw [← hending]
      rfl

/-- A reader can be asked for its next token and for all tokens of its text in any order. All
tokens are the same whenever it is asked for them, up to the end of the source or a fault, and this
does not move it. The next token is the one that follows those it gave before, and beyond them the
end of the source or the fault once more. The reader never moves back or beyond its text. It moves
past each token that it gives; at the end, and at the place of a fault, with the spaces and
comments before it skipped, it stays whatever it is asked for. -/
theorem reader_restarts_and_settles (text : String) (requests : List Request) :
    let feed := tokenize text
    let lexer := (askAll requests (ofText text)).2
    (∃ tokens, (∀ token ∈ tokens, token.kind ≠ .eof) ∧
      (feed = { tokens := tokens ++ [Token.eof text.length], ending := none } ∨
        ∃ fault, feed = { tokens, ending := some fault })) ∧
    (askAll requests (ofText text)).1 = feed.answers requests 0 ∧
    ask .all lexer = (.all feed, lexer) ∧
    lexer.next.1 = feed.nth (requests.count .next) ∧
    lexer.pos ≤ text.length ∧
    (∀ later, lexer.pos ≤ (askAll later lexer).2.pos) ∧
    ((∃ token, lexer.next.1 = .ok token ∧ token.kind ≠ .eof ∧ lexer.pos < lexer.next.2.pos ∧
        lexer.next.2.pos = token.stop) ∨
      ((lexer.next.1 = .ok (Token.eof text.length) ∧ lexer.next.2.pos = text.length ∨
          ∃ fault, lexer.next.1 = .error fault ∧ Stuck text lexer.pos lexer.next.2.pos fault) ∧
        ∀ later, askAll later lexer.next.2 =
          (later.map (repeated feed lexer.next.1), lexer.next.2))) := by
  intro feed lexer
  obtain ⟨hanswers, hstands, -⟩ := (stands_ofText text).run requests
  rw [Nat.zero_add] at hstands
  have hfeed : lexer.feed = tokenize text := by rw [Lexer.feed, hstands.text_eq]
  refine ⟨tokenize_shape text, hanswers, ?_, hstands.step.1, hstands.pos_le,
    fun later => (hstands.run later).2.2, hstands.moves_or_stays⟩
  rw [ask, hfeed]

end LetLang.Lexer
