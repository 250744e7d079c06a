import LetLang.Proofs.Parsing.Completeness
import LetLang.Proofs.Parsing.Lookahead
/-!
# One token ahead

Reading an expression looks at exactly one token after those that it takes, and that token is all
that is left in the buffer. Of this token only the kind matters, and of what comes after it nothing
does.
-/
namespace LetLang

open TokenStream

variable {α β : Type}

/-! ### What is in the buffer -/

/-- At most one token was looked at and not taken; if `looked`, there is one. -/
def TokenStream.Ahead (looked : Bool) (s : TokenStream) : Prop :=
  s.buffer.length ≤ 1 ∧ (looked = true → s.buffer ≠ [])

/-- The stream after the tokens `p` were taken and the token after them was looked at. -/
def TokenStream.after (s : TokenStream) (p : List Token) (next : Token) (rest : List Token) :
    TokenStream :=
  { s with
    buffer := [next]
    feed := { s.feed with tokens := rest }
    last := p.getLast?.or s.last }

/-- The reader never looks further than one token ahead. Where `pre` tells whether the next token
was looked at before, `post` tells whether it was after a success. -/
structure Looks (pre post : Bool) (x : Reading α) : Prop where
  stays : ∀ s : TokenStream, s.Ahead pre → (outcome x s).2.Ahead false
  gives : ∀ {s : TokenStream} {a s'}, s.Ahead pre → outcome x s = (.ok a, s') → s'.Ahead post

namespace Looks

variable {pre mid post : Bool} {x y : Reading α}

theorem forget (h : Looks pre post x) : Looks pre false x where
  stays := h.stays
  gives hs hx := ⟨(h.gives hs hx).1, by simp⟩

theorem pure (a : α) : Looks pre pre (Pure.pure a : Reading α) where
  stays s hs := ⟨hs.1, by simp⟩
  gives hs h := by
    cases h
    exact hs

theorem get : Looks pre pre (MonadState.get : Reading TokenStream) where
  stays s hs := ⟨hs.1, by simp⟩
  gives hs h := by
    cases h
    exact hs

theorem throw (fault : Fault) : Looks pre post (MonadExcept.throw fault : Reading α) where
  stays s hs := ⟨hs.1, by simp⟩
  gives hs h := by cases h

theorem bind {f : α → Reading β} (hx : Looks pre mid x) (hf : ∀ a, Looks mid post (f a)) :
    Looks pre post (x >>= f) where
  stays s hs := by
    have hstays := hx.stays s hs
    rcases hrun : outcome x s with ⟨fault | a, s'⟩
    · rw [hrun] at hstays
      rwa [outcome_bind_of_error hrun]
    · rw [outcome_bind_of_ok hrun]
      exact (hf a).stays s' (hx.gives hs hrun)
  gives hs h := by
    obtain ⟨a, s', hrun, h⟩ := outcome_bind_eq_ok.1 h
    exact (hf a).gives (hx.gives hs hrun) h

theorem ite {c : Prop} [Decidable c] (hx : Looks pre post x) (hy : Looks pre post y) :
    Looks pre post (if c then x else y) := by
  split
  · exact hx
  · exact hy

end Looks

section Tokens

variable {pre : Bool}

/-- Looking at the next token leaves it alone in the buffer. -/
theorem outcome_peek_of_ahead {s : TokenStream} (h : s.Ahead pre) :
    (∃ fault s', outcome peek s = (.error fault, s') ∧ s'.buffer = []) ∨
      ∃ token s', outcome peek s = (.ok token, s') ∧ s'.buffer = [token] := by
  obtain ⟨source, buffer, ⟨tokens, ending⟩, last⟩ := s
  obtain ⟨hlength, -⟩ := h
  rcases buffer with _ | ⟨first, _ | _⟩
  · rcases tokens with _ | ⟨token, tokens⟩
    · cases ending <;> exact .inl ⟨_, _, rfl, rfl⟩
    · exact .inr ⟨_, _, rfl, rfl⟩
  · exact .inr ⟨_, _, rfl, rfl⟩
  · simp at hlength

theorem looks_peek : Looks pre true peek where
  stays s hs := by
    rcases outcome_peek_of_ahead hs with ⟨_, s', hpeek, hbuffer⟩ | ⟨_, s', hpeek, hbuffer⟩ <;>
      simp [hpeek, hbuffer, Ahead]
  gives hs h := by
    rcases outcome_peek_of_ahead hs with ⟨_, s', hpeek, -⟩ | ⟨_, s', hpeek, hbuffer⟩ <;>
      rw [hpeek] at h <;> cases h
    simp [hbuffer, Ahead]

theorem looks_advance : Looks pre false advance := by
  refine looks_peek.bind fun token => ?_
  have hmodify : ∀ s : TokenStream, s.Ahead true →
      Ahead false { s with
        buffer := if token.kind = .eof then s.buffer else s.buffer.tail
        last := some token } := by
    intro s hs
    refine ⟨?_, by simp⟩
    have hlength := hs.1
    dsimp only
    split
    · exact hlength
    · rw [List.length_tail]
      omega
  constructor
  · exact hmodify
  · intro s a s' hs h
    cases h
    exact hmodify s hs

theorem looks_expect (kinds : List Kind) : Looks pre false (expect kinds) :=
  looks_peek.bind fun _ => .ite looks_advance (Looks.get.bind fun _ => .throw _)

theorem looks_nextIs (kinds : List Kind) : Looks pre true (nextIs kinds) :=
  looks_peek.bind fun _ => .pure _

end Tokens

/-! ### Expressions -/

namespace Parser

variable {pre : Bool}

theorem looks_identifier : Looks pre false identifier :=
  (looks_expect _).bind fun _ => .pure _

theorem looks_operations {operand : Reading Expr} (h : ∀ pre, Looks pre true operand)
    (level : Level) (rounds : List Token) (left : Expr) :
    Looks pre true (operations level operand rounds left) := by
  induction rounds generalizing pre left with
  | nil =>
    rw [operations]
    exact looks_peek.bind fun _ => .pure _
  | cons _ rounds ih =>
    rw [operations]
    refine looks_peek.bind fun token => ?_
    cases level.operator? token.kind with
    | none => exact .pure _
    | some op => exact looks_advance.bind fun _ => (h _).bind fun right => ih _

theorem looks_separated {item : Reading α} (h : ∀ pre, Looks pre false item) (close : Kind)
    (rounds : List Token) : Looks pre false (separated close item rounds) := by
  induction rounds generalizing pre with
  | nil =>
    rw [separated.eq_def]
    refine (looks_nextIs _).bind fun _ => .ite (Looks.pure _).forget ?_
    exact (looks_expect _).bind fun _ => (h _).bind fun _ => .pure _
  | cons _ rounds ih =>
    rw [separated]
    refine (looks_nextIs _).bind fun _ => .ite (Looks.pure _).forget ?_
    exact (looks_expect _).bind fun _ => (h _).bind fun _ => ih.bind fun _ => .pure _

theorem looks_enclosed {item : Reading α} (h : ∀ pre, Looks pre false item) (close : Kind)
    {present : Reading Bool} (hpresent : Looks pre true present) :
    Looks pre false (enclosed close present item) := by
  refine hpresent.bind fun _ => .ite ?_ (Looks.pure _).forget
  refine (h _).bind fun _ => Looks.get.bind fun _ => ?_
  exact (looks_separated h close _).bind fun _ => .pure _

theorem looks_calls {argument : Reading Expr} (h : ∀ pre, Looks pre true argument)
    (rounds : List Token) (callee : Expr) : Looks pre true (calls argument rounds callee) := by
  induction rounds generalizing pre callee with
  | nil =>
    rw [calls]
    exact (looks_nextIs _).bind fun _ => .pure _
  | cons _ rounds ih =>
    rw [calls]
    have hpresent : Looks false true (return !(← nextIs [.rparen])) :=
      (looks_nextIs _).bind fun _ => .pure _
    refine (looks_nextIs _).bind fun _ => .ite ?_ (.pure _)
    refine (looks_expect _).bind fun _ =>
      (looks_enclosed (fun pre => (h pre).forget) _ hpresent).bind fun _ => ?_
    exact (looks_expect _).bind fun _ => ih _

/-- Only a primary expression ends without a look at what comes next. -/
def Production.looksAhead : Production → Bool
  | .primary => false
  | _ => true

theorem looksAhead_operand (level : Level) : level.operand.looksAhead = true := by
  cases level <;> rfl

theorem looks_step {read : Production → Reading Expr}
    (h : ∀ production pre, Looks pre production.looksAhead (read production))
    (production : Production) : Looks pre production.looksAhead (step read production) := by
  cases production with
  | expr =>
    refine looks_peek.bind fun token => ?_
    split
    · exact h .letExpr _
    · exact h .ifExpr _
    · exact h .fnExpr _
    · exact h (.infixed .logic) _
  | letExpr =>
    refine (looks_expect _).bind fun _ => looks_identifier.bind fun name =>
      (looks_expect _).bind fun _ => (h _ _).bind fun bound => (looks_nextIs _).bind fun _ =>
        .ite ?_ (.pure _)
    exact looks_advance.bind fun _ => (h _ _).bind fun _ => .pure _
  | ifExpr =>
    refine (looks_expect _).bind fun _ => (h _ _).bind fun cond => (looks_expect _).bind fun _ =>
      (h _ _).bind fun yes => (looks_nextIs _).bind fun _ => .ite ?_ (.pure _)
    exact looks_advance.bind fun _ => (h _ _).bind fun _ => .pure _
  | fnExpr =>
    refine (looks_expect _).bind fun _ =>
      (looks_enclosed (fun _ => looks_identifier) _ (looks_nextIs _)).bind fun params => ?_
    exact (looks_expect _).bind fun _ => (looks_expect _).bind fun _ =>
      (h _ _).bind fun _ => .pure _
  | infixed level =>
    have hoperand := h level.operand
    rw [looksAhead_operand] at hoperand
    exact (hoperand _).bind fun left => Looks.get.bind fun _ =>
      looks_operations hoperand level _ left
  | unary =>
    refine looks_peek.bind fun token => ?_
    cases unaryOperator? token.kind with
    | none => exact h .application _
    | some op => exact looks_advance.bind fun _ => (h _ _).bind fun _ => .pure _
  | application =>
    exact (h _ _).bind fun callee => Looks.get.bind fun _ => looks_calls (h .argument) _ callee
  | argument => exact h .expr _
  | primary =>
    refine (looks_expect _).bind fun token => ?_
    cases token.kind with
    | lparen =>
      refine (looks_nextIs _).bind fun _ => .ite ?_ ?_
      · exact (Looks.pure _).bind fun _ => (looks_expect _).bind fun _ => .pure _
      · exact (h _ _).bind fun _ => (looks_expect _).bind fun _ => .pure _
    | _ => exact .pure _

theorem looks_read (budget : Nat) (production : Production) :
    Looks pre production.looksAhead (read budget production) := by
  induction budget generalizing pre production with
  | zero => exact .throw _
  | succ budget ih => exact looks_step (fun production _ => ih production) production

/-! ### Calls one after the other -/

/-- The streams that are met when expressions are read from a fresh stream over the feed, one after
the other, with looks for the end of the source in between. -/
inductive Visited (source : String) (feed : Lexer.Feed) : TokenStream → Prop
  | fresh : Visited source feed (ofFeed source feed)
  | parse {s} (budget : Nat) (h : Visited source feed s) :
      Visited source feed (outcome (parse budget) s).2
  | atEnd {s} (h : Visited source feed s) : Visited source feed (outcome atEnd s).2

variable {source : String} {feed : Lexer.Feed} {s s' : TokenStream} {budget : Nat} {e : Expr}
  {p rest : List Token} {next : Token}

theorem Visited.ahead (h : Visited source feed s) : s.Ahead false := by
  induction h with
  | fresh => simp [Ahead, ofFeed]
  | parse budget _ ih => exact (looks_read budget .expr).stays _ ih
  | atEnd _ ih => exact (looks_nextIs _).stays _ ih

/-- What is pending is what the feed has after the tokens that were taken. -/
theorem Visited.tokens (h : Visited source feed s) : ∃ taken, feed.tokens = taken ++ s.pending := by
  induction h with
  | fresh => exact ⟨[], rfl⟩
  | @parse s budget _ ih =>
    obtain ⟨taken, htaken⟩ := ih
    obtain ⟨p, hp⟩ := (abreast_read budget .expr).passes s
    exact ⟨taken ++ p, by rw [htaken, hp.pending, List.append_assoc]; rfl⟩
  | @atEnd s _ ih =>
    obtain ⟨taken, htaken⟩ := ih
    obtain ⟨p, hp⟩ := (abreast_nextIs [.eof]).passes s
    exact ⟨taken ++ p, by rw [htaken, hp.pending, List.append_assoc]; rfl⟩

/-- A stream with one token in the buffer, by what is still to come. -/
theorem eq_after (hahead : s'.Ahead true)
    (hview : s'.view = (next :: rest, s.feed.ending, s.source))
    (hlast : s'.last = p.getLast?.or s.last) : s' = s.after p next rest := by
  obtain ⟨source, buffer, ⟨tokens, ending⟩, last⟩ := s'
  rcases buffer with _ | ⟨first, _ | _⟩
  · exact absurd rfl (hahead.2 rfl)
  · simp only [view, pending, List.cons_append, List.nil_append, Prod.mk.injEq,
      List.cons.injEq] at hview
    obtain ⟨⟨rfl, rfl⟩, rfl, rfl⟩ := hview
    obtain rfl := hlast
    rfl
  · simp [Ahead] at hahead

/-- A greedy derivation is read with one look at the token after its phrase. -/
theorem parse_of_greedy {opens : Set Kind} (hs : s.Ahead false) (h : Greedy budget .expr p e opens)
    (hpending : s.pending = p ++ next :: rest) (hnext : next.kind ∉ opens) :
    outcome (parse budget) s = (.ok e, s.after p next rest) := by
  obtain ⟨s', hread, hview⟩ := read_complete budget .expr h (ended_cons.2 hnext) s hpending
  obtain ⟨q, hpasses⟩ := (abreast_read budget .expr).passes s
  rw [hread] at hpasses
  obtain rfl : q = p := by
    have hq : s.pending = q ++ s'.pending := hpasses.pending
    rw [hpending, show s'.pending = next :: rest from congrArg Prod.fst hview] at hq
    exact (List.append_cancel_right hq).symm
  have hahead := (looks_read budget .expr).gives hs hread
  rw [parse, hread, eq_after hahead hview hpasses.last]

theorem outcome_atEnd_after (s : TokenStream) (p rest : List Token) (next : Token) :
    outcome atEnd (s.after p next rest) = (.ok (next.kind = .eof), s.after p next rest) := by
  have hpeek : outcome peek (s.after p next rest) = (.ok next, s.after p next rest) := rfl
  rw [atEnd, nextIs, outcome_bind_of_ok hpeek]
  simp

/-- Reading an expression looks exactly one token ahead: of the tokens that are still to come it
takes some, has the next one in the buffer, and leaves the rest in the feed. A look for the end of
the source changes nothing. Every stream that begins with the same tokens and a token of the same
kind is read alike, whatever comes after them. -/
theorem parse_one_ahead (hs : Visited source feed s)
    (h : outcome (parse budget) s = (.ok e, s')) :
    ∃ taken p next rest, feed.tokens = taken ++ s.pending ∧ s.pending = p ++ next :: rest ∧
      s' = s.after p next rest ∧ outcome atEnd s' = (.ok (next.kind = .eof), s') ∧
      ∀ source₂ feed₂ s₂ next₂ rest₂, Visited source₂ feed₂ s₂ →
        s₂.pending = p ++ next₂ :: rest₂ → next₂.kind = next.kind →
          outcome (parse budget) s₂ = (.ok e, s₂.after p next₂ rest₂) := by
  obtain ⟨taken, htaken⟩ := hs.tokens
  obtain ⟨p, opens, hgreedy, hpending, hended⟩ := read_sound budget .expr h
  obtain ⟨next, rest, hnext⟩ : ∃ next rest, s'.pending = next :: rest := by
    have hahead := (looks_read budget .expr).gives hs.ahead h
    exact List.exists_cons_of_ne_nil (List.append_ne_nil_of_left_ne_nil (hahead.2 rfl) _)
  rw [hnext] at hpending hended
  have hparse := parse_of_greedy hs.ahead hgreedy hpending hended
  rw [h] at hparse
  obtain ⟨-, rfl⟩ := Prod.mk.inj hparse
  refine ⟨taken, p, next, rest, htaken, hpending, rfl, outcome_atEnd_after s p rest next, ?_⟩
  intro source₂ feed₂ s₂ next₂ rest₂ hs₂ hpending₂ hkind
  exact parse_of_greedy hs₂.ahead hgreedy hpending₂ (hkind ▸ hended)

/-- A second expression is read, although the text cannot be read to its end. -/
theorem parse_one_ahead_second :
    let s := (outcome (parse 8) (ofText "x y z #")).2
    (outcome (parse 8) s).1 = .ok (.ident "y") ∧
      ∃ taken p next rest, (Lexer.tokenize "x y z #").tokens = taken ++ s.pending ∧
        s.pending = p ++ next :: rest ∧ (outcome (parse 8) s).2 = s.after p next rest := by
  intro s
  have hresult : (outcome (parse 8) s).1 = .ok (.ident "y") := by decide +kernel
  have h : outcome (parse 8) s = (.ok (.ident "y"), (outcome (parse 8) s).2) :=
    Prod.ext hresult rfl
  obtain ⟨taken, p, next, rest, htokens, hpending, hafter, -⟩ :=
    parse_one_ahead (.parse 8 .fresh) h
  exact ⟨hresult, taken, p, next, rest, htokens, hpending, hafter⟩

end Parser

end LetLang
