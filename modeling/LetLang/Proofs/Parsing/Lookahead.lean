import LetLang.Proofs.Grammar.Greedy
import LetLang.Proofs.Stream
/-!
# How far reading looks ahead

Readers take tokens from the front of a stream, one after the other, and never the end of the
source. They look at most at the token after those that they have taken: two streams that begin
with the same tokens are read alike for as long as reading stays within these tokens, whatever
comes after them.
-/
namespace LetLang

open TokenStream

variable {α β : Type}

/-- The second stream is the first one after the tokens `p` were taken from it. -/
structure TokenStream.Passes (s s' : TokenStream) (p : List Token) : Prop where
  pending : s.pending = p ++ s'.pending
  last : s'.last = p.getLast?.or s.last
  source : s'.source = s.source
  ending : s.feed.ending = none → s'.feed.ending = none

/-- The two streams begin with the tokens `p`, and their errors name the same source. -/
structure TokenStream.Shares (s s' : TokenStream) (p : List Token) : Prop where
  source : s'.source = s.source
  left : p <+: s.pending
  right : p <+: s'.pending

namespace TokenStream

variable {s s' t t' : TokenStream} {p q : List Token}

theorem Passes.refl (s : TokenStream) : s.Passes s [] where
  pending := rfl
  last := by simp
  source := rfl
  ending := id

theorem Passes.trans (h : s.Passes s' p) (h' : s'.Passes t q) : s.Passes t (p ++ q) where
  pending := by rw [h.pending, h'.pending, List.append_assoc]
  last := by rw [h'.last, h.last, List.getLast?_append, Option.or_assoc]
  source := h'.source.trans h.source
  ending hending := h'.ending (h.ending hending)

theorem shares_nil (s : TokenStream) : s.Shares s [] where
  source := rfl
  left := List.nil_prefix
  right := List.nil_prefix

theorem Shares.passes (h : s.Shares s' (q ++ p)) (hs : s.Passes t q) (hs' : s'.Passes t' q) :
    t.Shares t' p where
  source := by rw [hs.source, hs'.source, h.source]
  left := by simpa [hs.pending] using h.left
  right := by simpa [hs'.pending] using h.right

end TokenStream

/-- The first reader takes tokens from the first stream. If these are fewer than the tokens `p`, or
all of them and no more, then the second reader takes the same from the second stream and has the
same result. -/
def AbreastAt (s s' : TokenStream) (p : List Token) (x x' : Reading α) : Prop :=
  ∃ q, s.Passes (outcome x s).2 q ∧
    (p <+: q ∨ ∃ p', p = q ++ p' ∧ (outcome x' s').1 = (outcome x s).1 ∧
      s'.Passes (outcome x' s').2 q)

/-- The two readers keep abreast on all streams that begin with the same tokens, `n` at most. -/
def Abreast (n : Nat) (x x' : Reading α) : Prop :=
  ∀ s s' p, p.length ≤ n → s.Shares s' p → AbreastAt s s' p x x'

section Sequences

variable {n : Nat} {s s' : TokenStream} {p : List Token}

namespace Abreast

variable {x x' y y' : Reading α}

theorem mono {m : Nat} (h : Abreast n x x') (hle : m ≤ n) : Abreast m x x' :=
  fun s s' p hp hshares => h s s' p (Nat.le_trans hp hle) hshares

/-- Where nothing is shared, the second reader does not matter. -/
theorem of_zero {x'' : Reading α} (h : Abreast 0 x x') : Abreast 0 x x'' := by
  intro s s' p hp hshares
  obtain rfl : p = [] := List.length_eq_zero_iff.1 (Nat.le_zero.1 hp)
  obtain ⟨q, hpasses, -⟩ := h s s' [] hp hshares
  exact ⟨q, hpasses, .inl List.nil_prefix⟩

/-- What a reader leaves of a stream, whether it succeeds or not. -/
theorem passes (h : Abreast 0 x x') (s : TokenStream) : ∃ p, s.Passes (outcome x s).2 p := by
  obtain ⟨p, hpasses, -⟩ := h s s [] (Nat.le_refl 0) (shares_nil s)
  exact ⟨p, hpasses⟩

theorem pure (a : α) : Abreast n (Pure.pure a : Reading α) (Pure.pure a) :=
  fun s s' p _ _ => ⟨[], .refl s, .inr ⟨p, rfl, rfl, .refl s'⟩⟩

theorem throw (fault : Fault) :
    Abreast n (MonadExcept.throw fault : Reading α) (MonadExcept.throw fault) :=
  fun s s' p _ _ => ⟨[], .refl s, .inr ⟨p, rfl, rfl, .refl s'⟩⟩

theorem bind {f f' : α → Reading β} (hx : Abreast n x x') (hf : ∀ a, Abreast n (f a) (f' a)) :
    Abreast n (x >>= f) (x' >>= f') := by
  intro s s' p hp hshares
  obtain ⟨q, hpasses, hq⟩ := hx s s' p hp hshares
  unfold AbreastAt
  rw [outcome_bind, outcome_bind]
  rcases hrun : outcome x s with ⟨fault | a, t⟩
  · rw [hrun] at hpasses hq
    refine ⟨q, hpasses, hq.imp_right ?_⟩
    rintro ⟨p', rfl, hresult, hpasses'⟩
    rcases hrun' : outcome x' s' with ⟨fault' | a', t'⟩ <;> rw [hrun'] at hresult hpasses'
    · cases hresult
      exact ⟨p', rfl, rfl, hpasses'⟩
    · cases hresult
  · rw [hrun] at hpasses hq
    rcases hq with hq | ⟨p', rfl, hresult, hpasses'⟩
    · -- All that is shared is taken, so that it does not matter how the second reader goes on.
      obtain ⟨q', htail, -⟩ := hf a t t [] (Nat.zero_le n) (shares_nil t)
      exact ⟨q ++ q', hpasses.trans htail, .inl (hq.trans (List.prefix_append q q'))⟩
    · rcases hrun' : outcome x' s' with ⟨fault' | a', t'⟩ <;> rw [hrun'] at hresult hpasses'
      · cases hresult
      · cases hresult
        have hp' : p'.length ≤ n := by
          simp only [List.length_append] at hp
          omega
        obtain ⟨q', htail, hq'⟩ := hf a t t' p' hp' (hshares.passes hpasses hpasses')
        refine ⟨q ++ q', hpasses.trans htail, hq'.imp (List.prefix_append_right_inj q).2 ?_⟩
        rintro ⟨p'', rfl, hresult, htail'⟩
        exact ⟨p'', by simp, hresult, hpasses'.trans htail'⟩

theorem ite {c : Prop} [Decidable c] (hx : Abreast n x x') (hy : Abreast n y y') :
    Abreast n (if c then x else y) (if c then x' else y') := by
  split
  · exact hx
  · exact hy

/-- Readers that go on with what is still to come. -/
theorem get_bind {f f' : TokenStream → Reading α}
    (hf : ∀ s s' p, p.length ≤ n → s.Shares s' p → AbreastAt s s' p (f s) (f' s')) :
    Abreast n (get >>= f) (get >>= f') := by
  intro s s' p hp hshares
  unfold AbreastAt
  rw [outcome_bind_of_ok (outcome_get s), outcome_bind_of_ok (outcome_get s')]
  exact hf s s' p hp hshares

/-- Loops that take a token in each round may differ in the number of their rounds, if it bounds
the number of shared tokens. -/
theorem of_rounds {γ : Type} (loop : List Token → γ → Reading α)
    (hnil : ∀ c, Abreast 0 (loop [] c) (loop [] c))
    (hcons : ∀ n round round' rounds rounds',
      (∀ c, Abreast (n - 1) (loop rounds c) (loop rounds' c)) →
      ∀ c, Abreast n (loop (round :: rounds) c) (loop (round' :: rounds') c))
    {rounds rounds' : List Token} (hrounds : n ≤ rounds.length) (hrounds' : n ≤ rounds'.length)
    (c : γ) : Abreast n (loop rounds c) (loop rounds' c) := by
  induction rounds generalizing n rounds' c with
  | nil =>
    obtain rfl : n = 0 := Nat.le_zero.1 hrounds
    exact (hnil c).of_zero
  | cons round rounds ih =>
    have hrounds : n - 1 ≤ rounds.length := Nat.sub_le_of_le_add hrounds
    cases rounds' with
    | nil =>
      obtain rfl : n = 0 := Nat.le_zero.1 hrounds'
      exact (hcons 0 round round rounds rounds (ih hrounds hrounds) c).of_zero
    | cons round' rounds' =>
      exact hcons n round round' rounds rounds' (ih hrounds (Nat.sub_le_of_le_add hrounds')) c

end Abreast

end Sequences

/-! ### Looking and taking -/

section Tokens

variable {n : Nat} {s s' : TokenStream} {p rest : List Token} {token : Token} {kinds : List Kind}

theorem passes_of_peek (h : s.pending = token :: rest) :
    ∃ t, outcome peek s = (.ok token, t) ∧ s.Passes t [] := by
  obtain ⟨buffer, tokens, rfl, hpeek⟩ := exists_outcome_peek h
  exact ⟨_, hpeek, h, rfl, rfl, id⟩

theorem passes_of_peek_nil (h : s.pending = []) :
    ∃ fault t, outcome peek s = (.error fault, t) ∧ s.Passes t [] := by
  obtain ⟨source, buffer, ⟨tokens, ending⟩, last⟩ := s
  obtain ⟨rfl, rfl⟩ := List.append_eq_nil_iff.1 h
  cases ending with
  | none => exact ⟨_, _, rfl, rfl, rfl, rfl, id⟩
  | some fault => exact ⟨_, _, rfl, rfl, rfl, rfl, fun _ => rfl⟩

theorem passes_of_advance (h : s.pending = token :: rest) (hkind : token.kind ≠ .eof) :
    ∃ t, outcome advance s = (.ok token, t) ∧ s.Passes t [token] := by
  obtain ⟨buffer, tokens, rfl, hpeek⟩ := exists_outcome_peek h
  rw [advance, outcome_bind_of_ok hpeek]
  refine ⟨_, rfl, ?_, rfl, rfl, id⟩
  rw [h]
  simp [pending, hkind]

/-- Readers that look at the next token may go on as the token tells them to. -/
theorem Abreast.peek_bind {f f' : Token → Reading α}
    (hf : ∀ s s' p token rest, p.length ≤ n → s.Shares s' p → s.pending = token :: rest →
      AbreastAt s s' p (f token) (f' token)) : Abreast n (peek >>= f) (peek >>= f') := by
  intro s s' p hp hshares
  unfold AbreastAt
  cases hpending : s.pending with
  | nil =>
    obtain ⟨fault, t, hpeek, hpasses⟩ := passes_of_peek_nil hpending
    have hnil : p = [] := List.prefix_nil.1 (hpending ▸ hshares.left)
    rw [outcome_bind_of_error hpeek, hnil]
    exact ⟨[], hpasses, .inl List.nil_prefix⟩
  | cons token rest =>
    obtain ⟨t, hpeek, hpasses⟩ := passes_of_peek hpending
    have ht : t.pending = token :: rest := hpasses.pending.symm.trans hpending
    rw [outcome_bind_of_ok hpeek]
    cases p with
    | nil =>
      obtain ⟨q, htail, -⟩ := hf t t [] token rest hp (shares_nil t) ht
      exact ⟨q, hpasses.trans htail, .inl List.nil_prefix⟩
    | cons first p =>
      obtain ⟨rest', hrest'⟩ := hshares.right
      obtain rfl : first = token := by
        have hleft := hshares.left
        rw [hpending] at hleft
        exact (List.cons_prefix_cons.1 hleft).1
      obtain ⟨t', hpeek', hpasses'⟩ := passes_of_peek hrest'.symm
      rw [outcome_bind_of_ok hpeek']
      have ht' : t.Shares t' (first :: p) := TokenStream.Shares.passes hshares hpasses hpasses'
      obtain ⟨q, htail, hq⟩ := hf t t' (first :: p) first rest hp ht' ht
      refine ⟨q, hpasses.trans htail, hq.imp_right ?_⟩
      rintro ⟨p', hp', hresult, htail'⟩
      exact ⟨p', hp', hresult, hpasses'.trans htail'⟩

/-- Taking the next token leaves one token less of what is shared. -/
theorem AbreastAt.advance_bind {f f' : Token → Reading α} (h : s.pending = token :: rest)
    (hkind : token.kind ≠ .eof) (hp : p.length ≤ n) (hshares : s.Shares s' p)
    (hf : Abreast (n - 1) (f token) (f' token)) :
    AbreastAt s s' p (advance >>= f) (advance >>= f') := by
  obtain ⟨t, hadvance, hpasses⟩ := passes_of_advance h hkind
  unfold AbreastAt
  rw [outcome_bind_of_ok hadvance]
  cases p with
  | nil =>
    obtain ⟨q, htail, -⟩ := hf t t [] (Nat.zero_le _) (shares_nil t)
    exact ⟨[token] ++ q, hpasses.trans htail, .inl List.nil_prefix⟩
  | cons first p =>
    obtain ⟨rest', hrest'⟩ := hshares.right
    obtain rfl : first = token := by
      have hleft := hshares.left
      rw [h] at hleft
      exact (List.cons_prefix_cons.1 hleft).1
    obtain ⟨t', hadvance', hpasses'⟩ := passes_of_advance hrest'.symm hkind
    rw [outcome_bind_of_ok hadvance']
    have hlength : p.length ≤ n - 1 := Nat.le_sub_one_of_lt hp
    obtain ⟨q, htail, hq⟩ := hf t t' p hlength (TokenStream.Shares.passes hshares hpasses hpasses')
    refine ⟨[first] ++ q, hpasses.trans htail, hq.imp ?_ ?_⟩
    · exact fun hq => List.cons_prefix_cons.2 ⟨rfl, hq⟩
    · rintro ⟨p', rfl, hresult, htail'⟩
      exact ⟨p', rfl, hresult, hpasses'.trans htail'⟩

theorem expect_bind_eq (kinds : List Kind) (f : Token → Reading α) :
    expect kinds >>= f = peek >>= fun token =>
      if token.kind ∈ kinds then advance >>= f
      else get >>= fun stream =>
        throw (.language (.unexpectedToken kinds token stream.source)) >>= f := by
  rw [expect, bind_assoc]
  refine bind_congr fun token => ?_
  split
  · rfl
  · rw [bind_assoc]

theorem nextIs_bind_eq (kinds : List Kind) (f : Bool → Reading α) :
    nextIs kinds >>= f = peek >>= fun token => f (token.kind ∈ kinds) := by
  rw [nextIs, bind_assoc]
  rfl

theorem Abreast.expect_bind {f f' : Token → Reading α} (hkinds : .eof ∉ kinds)
    (hf : ∀ token, Abreast (n - 1) (f token) (f' token)) :
    Abreast n (expect kinds >>= f) (expect kinds >>= f') := by
  rw [expect_bind_eq, expect_bind_eq]
  apply Abreast.peek_bind
  intro s s' p token rest hp hshares hpending
  by_cases hmem : token.kind ∈ kinds
  · rw [if_pos hmem, if_pos hmem]
    have hkind : token.kind ≠ .eof := fun heq => hkinds (heq ▸ hmem)
    exact AbreastAt.advance_bind hpending hkind hp hshares (hf token)
  · rw [if_neg hmem, if_neg hmem]
    refine Abreast.get_bind (fun s s' p hp hshares => ?_) s s' p hp hshares
    rw [hshares.source]
    exact ⟨[], .refl s, .inr ⟨p, rfl, rfl, .refl s'⟩⟩

theorem Abreast.nextIs_bind {f f' : Bool → Reading α}
    (hf : ∀ answer, Abreast n (f answer) (f' answer)) :
    Abreast n (nextIs kinds >>= f) (nextIs kinds >>= f') := by
  rw [nextIs_bind_eq, nextIs_bind_eq]
  exact Abreast.peek_bind fun s s' p token _ hp hshares _ => hf _ s s' p hp hshares

/-- The next token is taken if it is of one of the kinds. -/
theorem Abreast.taken {f : Token → Reading α} {y : Reading α} (hkinds : .eof ∉ kinds)
    (hf : ∀ token, Abreast (n - 1) (f token) (f token)) (hy : Abreast n y y) :
    Abreast n (nextIs kinds >>= fun answer => if answer then advance >>= f else y)
      (nextIs kinds >>= fun answer => if answer then advance >>= f else y) := by
  rw [nextIs_bind_eq]
  apply Abreast.peek_bind
  intro s s' p token rest hp hshares hpending
  by_cases hmem : token.kind ∈ kinds
  · rw [if_pos (by simpa using hmem)]
    have hkind : token.kind ≠ .eof := fun heq => hkinds (heq ▸ hmem)
    exact AbreastAt.advance_bind hpending hkind hp hshares (hf token)
  · rw [if_neg (by simpa using hmem)]
    exact hy s s' p hp hshares

end Tokens

/-! ### Expressions -/

namespace Parser

variable {n : Nat}

theorem abreast_nextIs (kinds : List Kind) : Abreast n (nextIs kinds) (nextIs kinds) :=
  Abreast.peek_bind fun s s' p _ _ hp hshares _ => Abreast.pure _ s s' p hp hshares

theorem abreast_identifier : Abreast n identifier identifier :=
  Abreast.expect_bind (by decide) fun _ => .pure _

theorem abreast_operations {operand : Reading Expr} (h : ∀ n, Abreast n operand operand)
    (level : Level) {rounds rounds' : List Token} (hrounds : n ≤ rounds.length)
    (hrounds' : n ≤ rounds'.length) (left : Expr) :
    Abreast n (operations level operand rounds left) (operations level operand rounds' left) := by
  apply Abreast.of_rounds (operations level operand) _ _ hrounds hrounds' left
  · intro left
    rw [operations]
    exact Abreast.peek_bind fun s s' p _ _ hp hshares _ => Abreast.pure left s s' p hp hshares
  · intro n _ _ rounds rounds' ih left
    rw [operations, operations]
    apply Abreast.peek_bind
    intro s s' p token rest hp hshares hpending
    cases hop : level.operator? token.kind with
    | none => exact Abreast.pure left s s' p hp hshares
    | some op =>
      have hkind : token.kind ≠ .eof := ne_eof_of_operator? hop
      exact AbreastAt.advance_bind hpending hkind hp hshares ((h _).bind fun right => ih _)

theorem abreast_separated {item : Reading α} (h : ∀ n, Abreast n item item) {close : Kind}
    (hclose : close ≠ .eof) {rounds rounds' : List Token} (hrounds : n ≤ rounds.length)
    (hrounds' : n ≤ rounds'.length) :
    Abreast n (separated close item rounds) (separated close item rounds') := by
  have hkinds : .eof ∉ [.comma, close] := by simpa using hclose.symm
  apply Abreast.of_rounds (fun rounds (_ : Unit) => separated close item rounds) _ _ hrounds
    hrounds' ()
  · intro _
    rw [separated.eq_def]
    exact Abreast.nextIs_bind fun _ => Abreast.ite (.pure _) <|
      Abreast.expect_bind hkinds fun _ => (h _).bind fun _ => .pure _
  · intro n _ _ rounds rounds' ih _
    rw [separated, separated]
    exact Abreast.nextIs_bind fun _ => Abreast.ite (.pure _) <|
      Abreast.expect_bind hkinds fun _ => (h _).bind fun _ => (ih ()).bind fun _ => .pure _

theorem abreast_enclosed {item : Reading α} (h : ∀ n, Abreast n item item) {close : Kind}
    (hclose : close ≠ .eof) {present : Reading Bool} (hpresent : Abreast n present present) :
    Abreast n (enclosed close present item) (enclosed close present item) := by
  refine hpresent.bind fun _ => Abreast.ite ((h _).bind fun _ => ?_) (.pure _)
  apply Abreast.get_bind
  intro s s' p _ hshares
  have hothers := abreast_separated h hclose hshares.left.length_le hshares.right.length_le
  exact hothers.bind (fun _ => .pure _) s s' p (Nat.le_refl _) hshares

theorem abreast_calls {argument : Reading Expr} (h : ∀ n, Abreast n argument argument)
    {rounds rounds' : List Token} (hrounds : n ≤ rounds.length) (hrounds' : n ≤ rounds'.length)
    (callee : Expr) : Abreast n (calls argument rounds callee) (calls argument rounds' callee) := by
  apply Abreast.of_rounds (calls argument) _ _ hrounds hrounds' callee
  · intro callee
    rw [calls]
    exact Abreast.nextIs_bind fun _ => .pure _
  · intro n _ _ rounds rounds' ih callee
    rw [calls, calls]
    refine Abreast.nextIs_bind fun _ => Abreast.ite ?_ (.pure _)
    refine Abreast.expect_bind (by decide) fun _ => ?_
    refine (abreast_enclosed h (by decide) ?_).bind fun _ => ?_
    · exact (abreast_nextIs _).bind fun _ => .pure _
    · exact Abreast.expect_bind (by decide) fun _ => (ih _).mono (Nat.sub_le _ _)

theorem abreast_step {read : Production → Reading Expr}
    (h : ∀ production n, Abreast n (read production) (read production)) (production : Production) :
    Abreast n (step read production) (step read production) := by
  cases production with
  | expr =>
    apply Abreast.peek_bind
    intro s s' p token rest hp hshares _
    split <;> exact h _ n s s' p hp hshares
  | letExpr =>
    refine Abreast.expect_bind (by decide) fun _ => abreast_identifier.bind fun _ => ?_
    refine Abreast.expect_bind (by decide) fun _ => (h _ _).bind fun _ => ?_
    exact Abreast.taken (by decide) (fun _ => (h _ _).bind fun _ => .pure _) (.pure _)
  | ifExpr =>
    refine Abreast.expect_bind (by decide) fun _ => (h _ _).bind fun _ => ?_
    refine Abreast.expect_bind (by decide) fun _ => (h _ _).bind fun _ => ?_
    exact Abreast.taken (by decide) (fun _ => (h _ _).bind fun _ => .pure _) (.pure _)
  | fnExpr =>
    refine Abreast.expect_bind (by decide) fun _ => ?_
    refine (abreast_enclosed (fun _ => abreast_identifier) (by decide) (abreast_nextIs _)).bind
      fun _ => ?_
    refine Abreast.expect_bind (by decide) fun _ => Abreast.expect_bind (by decide) fun _ => ?_
    exact (h _ _).bind fun _ => .pure _
  | infixed level =>
    refine (h _ _).bind fun left => Abreast.get_bind fun s s' p _ hshares => ?_
    exact abreast_operations (h _) level hshares.left.length_le hshares.right.length_le left
      s s' p (Nat.le_refl _) hshares
  | unary =>
    apply Abreast.peek_bind
    intro s s' p token rest hp hshares hpending
    cases hop : unaryOperator? token.kind with
    | none => exact h .application n s s' p hp hshares
    | some op =>
      have hkind : token.kind ≠ .eof := ne_eof_of_unaryOperator? hop
      exact AbreastAt.advance_bind hpending hkind hp hshares ((h _ _).bind fun _ => .pure _)
  | application =>
    refine (h _ _).bind fun callee => Abreast.get_bind fun s s' p _ hshares => ?_
    exact abreast_calls (h _) hshares.left.length_le hshares.right.length_le callee
      s s' p (Nat.le_refl _) hshares
  | argument => exact h _ _
  | primary =>
    refine Abreast.expect_bind (by decide) fun token => ?_
    cases token.kind with
    | lparen =>
      refine Abreast.nextIs_bind fun _ => Abreast.ite ?_ ?_
      · exact (Abreast.pure _).bind fun _ => Abreast.expect_bind (by decide) fun _ => .pure _
      · exact (h _ _).bind fun _ => Abreast.expect_bind (by decide) fun _ => .pure _
    | _ => exact .pure _

/-- Reading a production looks no further than the token after those that it takes. -/
theorem abreast_read (budget : Nat) (production : Production) :
    Abreast n (read budget production) (read budget production) := by
  induction budget generalizing production n with
  | zero => exact .throw _
  | succ budget ih => exact abreast_step (fun production _ => ih production) production

end Parser

end LetLang
