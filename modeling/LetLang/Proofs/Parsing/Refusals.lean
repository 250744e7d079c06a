import LetLang.Proofs.Parsing.Lookahead
import LetLang.Proofs.Parsing.Soundness
/-!
# Refused tokens

A reader that refuses a token leaves the stream before it and asks for other kinds in its place.
What it has taken until then begins a phrase, and each kind that it asks for goes on with that.
Here this is shown of sequences of readers, from what each part of the sequence takes, and of
lists of items.
-/
namespace LetLang.Parser

open TokenStream

variable {α β : Type}

/-! ### Beginnings of phrases -/

/-- The tokens begin a list of the language. -/
def Starts (L : List Token → Prop) (w : List Token) : Prop :=
  ∃ more, L (w ++ more)

/-- The tokens that a production derives. -/
def Phrase (production : Production) (p : List Token) : Prop :=
  ∃ e, Derives production p e

section Starts

variable {L L' : List Token → Prop} {w w' : List Token}

theorem Starts.of_isPrefix (h : Starts L w') (hw : w <+: w') : Starts L w := by
  obtain ⟨v, rfl⟩ := hw
  obtain ⟨more, hmore⟩ := h
  exact ⟨v ++ more, by simpa using hmore⟩

/-- What begins the rest of a list begins, after what stands before the rest, the list. -/
theorem Starts.after (h : Starts L w) (p : List Token) (hL : ∀ v, L v → L' (p ++ v)) :
    Starts L' (p ++ w) := by
  obtain ⟨more, hmore⟩ := h
  exact ⟨more, by simpa using hL _ hmore⟩

theorem Starts.imp (h : Starts L w) (hL : ∀ v, L v → L' v) : Starts L' w := by
  obtain ⟨more, hmore⟩ := h
  exact ⟨more, hL _ hmore⟩

end Starts

theorem phrase_infixed_of_unary {p : List Token} (h : Phrase .unary p) (level : Level) :
    Phrase (.infixed level) p := by
  obtain ⟨e, h⟩ := h
  have hproduct : Derives (.infixed .product) p e := .operand h
  have hsum : Derives (.infixed .sum) p e := .operand hproduct
  have hcomparison : Derives (.infixed .comparison) p e := .operand hsum
  cases level with
  | logic => exact ⟨e, .operand hcomparison⟩
  | comparison => exact ⟨e, hcomparison⟩
  | sum => exact ⟨e, hsum⟩
  | product => exact ⟨e, hproduct⟩

/-- A token of the kind, wherever and whatever its text. -/
def anyToken (kind : Kind) : Token :=
  ⟨kind, "", 0⟩

/-- An integer is a phrase of every production that does not begin with a word of its own. -/
theorem exists_phrase (production : Production) : ∃ p, Phrase production p := by
  have hprimary : Derives .primary [anyToken .int] (.int (anyToken .int).number) := .int rfl
  have happlication := Derives.callee hprimary
  have hunary := Derives.plain happlication
  have hexpr : Phrase .expr [anyToken .int] := by
    obtain ⟨e, h⟩ := phrase_infixed_of_unary ⟨_, hunary⟩ .logic
    exact ⟨e, .exprLogic h⟩
  obtain ⟨e, hexpr⟩ := hexpr
  cases production with
  | expr => exact ⟨_, e, hexpr⟩
  | argument => exact ⟨_, e, .argument hexpr⟩
  | letExpr =>
    have hword : (anyToken .letWord).kind = .letWord := rfl
    have hname : (anyToken .ident).kind = .ident := rfl
    have heq : (anyToken .eq).kind = .eq := rfl
    exact ⟨_, _, .define hword hname heq hexpr⟩
  | ifExpr =>
    have hword : (anyToken .ifWord).kind = .ifWord := rfl
    have hthen : (anyToken .thenWord).kind = .thenWord := rfl
    exact ⟨_, _, .ifThen hword hexpr hthen hexpr⟩
  | fnExpr =>
    have hbar : (anyToken .vbar).kind = .vbar := rfl
    have harrow : (anyToken .arrow).kind = .arrow := rfl
    exact ⟨_, _, .thunk hbar hbar harrow hexpr⟩
  | infixed level => exact ⟨_, phrase_infixed_of_unary ⟨_, hunary⟩ level⟩
  | unary => exact ⟨_, _, hunary⟩
  | application => exact ⟨_, _, happlication⟩
  | primary => exact ⟨_, _, hprimary⟩

theorem starts_nil (production : Production) : Starts (Phrase production) [] :=
  exists_phrase production

/-! ### Refusals -/

/-- If the reader refuses a token of the stream, it leaves the stream before the token, and it asks
for kinds that go on, as `V` says, with what it has taken. -/
def RefusesAt (V : List Token → Prop) (s : TokenStream) (x : Reading α) : Prop :=
  ∀ expected found source s',
    outcome x s = (.error (.language (.unexpectedToken expected found source)), s') →
      ∃ q rest, s.pending = q ++ found :: rest ∧ s'.pending = found :: rest ∧ expected ≠ [] ∧
        ∀ kind ∈ expected, ∃ token : Token, token.kind = kind ∧ V (q ++ [token])

/-- The same for all streams without a fault of their own at the end. -/
def Refuses (V : List Token → Prop) (x : Reading α) : Prop :=
  ∀ s, s.feed.ending = none → RefusesAt V s x

/-- What the reader gives, it gives for tokens that it has taken, in the relation `R` to it. -/
def Gives (x : Reading α) (R : List Token → α → Prop) : Prop :=
  ∀ s a s', outcome x s = (.ok a, s') → ∃ p, R p a ∧ s.Passes s' p

section Sequences

variable {V V' : List Token → Prop} {R : List Token → α → Prop} {s : TokenStream}
  {x y : Reading α} {f : α → Reading β}

theorem Refuses.imp (h : Refuses V x) (hV : ∀ w, V w → V' w) : Refuses V' x := by
  intro s hending expected found source s' hrun
  obtain ⟨q, rest, hs, hs', hne, hkinds⟩ := h s hending expected found source s' hrun
  refine ⟨q, rest, hs, hs', hne, fun kind hkind => ?_⟩
  obtain ⟨token, htoken, hq⟩ := hkinds kind hkind
  exact ⟨token, htoken, hV _ hq⟩

theorem Refuses.pure (a : α) : Refuses V (Pure.pure a : Reading α) := by
  intro s _ expected found source s' hrun
  cases hrun

theorem RefusesAt.bind (hx : RefusesAt V s x)
    (hf : ∀ a s', outcome x s = (.ok a, s') →
      ∃ p, s.Passes s' p ∧ RefusesAt (fun w => V (p ++ w)) s' (f a)) :
    RefusesAt V s (x >>= f) := by
  intro expected found source s'' hrun
  rcases hfirst : outcome x s with ⟨fault | a, s'⟩
  · rw [outcome_bind_of_error hfirst] at hrun
    cases hrun
    exact hx expected found source s'' hfirst
  · rw [outcome_bind_of_ok hfirst] at hrun
    obtain ⟨p, hpasses, htail⟩ := hf a s' hfirst
    obtain ⟨q, rest, hs', hs'', hne, hkinds⟩ := htail expected found source s'' hrun
    refine ⟨p ++ q, rest, by rw [hpasses.pending, hs', List.append_assoc], hs'', hne, ?_⟩
    simpa using hkinds

theorem Refuses.bind (hx : Refuses V x) (hgives : Gives x R)
    (hf : ∀ p a, R p a → Refuses (fun w => V (p ++ w)) (f a)) : Refuses V (x >>= f) := by
  intro s hending
  apply (hx s hending).bind
  intro a s' hrun
  obtain ⟨p, hp, hpasses⟩ := hgives s a s' hrun
  exact ⟨p, hpasses, hf p a hp s' (hpasses.ending hending)⟩

theorem Refuses.bind_pure (hx : Refuses V x) (g : α → β) :
    Refuses V (x >>= fun a => Pure.pure (g a)) := by
  intro s hending expected found source s' hrun
  rcases hfirst : outcome x s with ⟨fault | a, t⟩
  · rw [outcome_bind_of_error hfirst] at hrun
    cases hrun
    exact hx s hending expected found source s' hfirst
  · rw [outcome_bind_of_ok hfirst] at hrun
    cases hrun

/-- A success tells what was taken, and no reader takes anything but the first tokens. -/
theorem gives_of_pending (hx : Abreast 0 x x)
    (h : ∀ s a s', outcome x s = (.ok a, s') → ∃ p, R p a ∧ s.pending = p ++ s'.pending) :
    Gives x R := by
  intro s a s' hrun
  obtain ⟨p, hp, hpending⟩ := h s a s' hrun
  obtain ⟨q, hpasses⟩ := hx.passes s
  rw [hrun] at hpasses
  have hpq : p = q := List.append_cancel_right (hpending.symm.trans hpasses.pending)
  rw [← hpq] at hpasses
  exact ⟨p, hp, hpasses⟩

theorem Refuses.get_bind {f : TokenStream → Reading α} (hf : ∀ s, Refuses V (f s)) :
    Refuses V (get >>= f) := by
  intro s hending expected found source s' hrun
  rw [outcome_bind_of_ok (outcome_get s)] at hrun
  exact hf s s hending expected found source s' hrun

end Sequences

/-! ### Looking and taking -/

section Tokens

variable {V : List Token → Prop} {s : TokenStream} {token : Token} {rest : List Token}
  {kinds : List Kind}

theorem Refuses.peek_bind {f : Token → Reading α}
    (hf : ∀ s token rest, s.feed.ending = none → s.pending = token :: rest →
      RefusesAt V s (f token)) : Refuses V (peek >>= f) := by
  intro s hending
  cases hpending : s.pending with
  | nil =>
    intro expected found source s' hrun
    obtain ⟨t, hpeek⟩ := outcome_peek_of_nil hpending
    rw [outcome_bind_of_error hpeek, hending] at hrun
    cases hrun
  | cons token rest =>
    obtain ⟨t, hpeek, hpasses⟩ := passes_of_peek hpending
    intro expected found source s' hrun
    rw [outcome_bind_of_ok hpeek] at hrun
    have ht : t.pending = token :: rest := hpasses.pending.symm.trans hpending
    have htail := hf t token rest (hpasses.ending hending) ht expected found source s' hrun
    rwa [hpending, ← ht]

theorem RefusesAt.advance_bind {f : Token → Reading α} (hpending : s.pending = token :: rest)
    (hkind : token.kind ≠ .eof) (hending : s.feed.ending = none)
    (hf : Refuses (fun w => V (token :: w)) (f token)) : RefusesAt V s (advance >>= f) := by
  obtain ⟨t, hadvance, hpasses⟩ := passes_of_advance hpending hkind
  apply RefusesAt.bind
  · intro expected found source s' hrun
    rw [hadvance] at hrun
    cases hrun
  · intro a s' hrun
    rw [hadvance] at hrun
    cases hrun
    exact ⟨[token], hpasses, hf t (hpasses.ending hending)⟩

/-- What is refused where some kinds are expected is the next token, and these kinds are asked
for. -/
theorem RefusesAt.expect_bind {f : Token → Reading α} (hpending : s.pending = token :: rest)
    (hending : s.feed.ending = none) (hkinds : .eof ∉ kinds) (hne : kinds ≠ [])
    (hV : ∀ token : Token, token.kind ∈ kinds → V [token])
    (hf : token.kind ∈ kinds → Refuses (fun w => V (token :: w)) (f token)) :
    RefusesAt V s (expect kinds >>= f) := by
  obtain ⟨t, hpeek, hpasses⟩ := passes_of_peek hpending
  have ht : t.pending = token :: rest := hpasses.pending.symm.trans hpending
  intro expected found source s' hrun
  rw [expect_bind_eq, outcome_bind_of_ok hpeek] at hrun
  by_cases hmem : token.kind ∈ kinds
  · rw [if_pos hmem] at hrun
    have hkind : token.kind ≠ .eof := fun heq => hkinds (heq ▸ hmem)
    have htaken : RefusesAt V t (advance >>= f) :=
      RefusesAt.advance_bind ht hkind (hpasses.ending hending) (hf hmem)
    rw [hpending, ← ht]
    exact htaken expected found source s' hrun
  · rw [if_neg hmem] at hrun
    cases hrun
    exact ⟨[], rest, hpending, ht, hne, fun kind hkind => ⟨anyToken kind, rfl, hV _ hkind⟩⟩

theorem Refuses.expect_bind {f : Token → Reading α} (hkinds : .eof ∉ kinds) (hne : kinds ≠ [])
    (hV : ∀ token : Token, token.kind ∈ kinds → V [token])
    (hf : ∀ token, token.kind ∈ kinds → Refuses (fun w => V (token :: w)) (f token)) :
    Refuses V (expect kinds >>= f) := by
  intro s hending
  cases hpending : s.pending with
  | nil =>
    intro expected found source s' hrun
    obtain ⟨t, hpeek⟩ := outcome_peek_of_nil hpending
    rw [expect_bind_eq, outcome_bind_of_error hpeek, hending] at hrun
    cases hrun
  | cons token rest => exact RefusesAt.expect_bind hpending hending hkinds hne hV (hf token)

theorem Refuses.expect_one_bind {f : Token → Reading α} {kind : Kind} (hkind : kind ≠ .eof)
    (hV : ∀ token : Token, token.kind = kind → V [token])
    (hf : ∀ token, token.kind = kind → Refuses (fun w => V (token :: w)) (f token)) :
    Refuses V (expect [kind] >>= f) :=
  Refuses.expect_bind (by simpa using hkind.symm) (by simp) (by simpa using hV) (by simpa using hf)

theorem Refuses.nextIs_bind {f : Bool → Reading α} (hf : ∀ answer, Refuses V (f answer)) :
    Refuses V (nextIs kinds >>= f) := by
  rw [nextIs_bind_eq]
  exact Refuses.peek_bind fun s _ _ hending _ => hf _ s hending

/-- The next token is taken if it is of one of the kinds. -/
theorem Refuses.taken {f : Token → Reading α} {y : Reading α} (hkinds : .eof ∉ kinds)
    (hf : ∀ token, token.kind ∈ kinds → Refuses (fun w => V (token :: w)) (f token))
    (hy : Refuses V y) :
    Refuses V (nextIs kinds >>= fun answer => if answer then advance >>= f else y) := by
  rw [nextIs_bind_eq]
  apply Refuses.peek_bind
  intro s token rest hending hpending
  by_cases hmem : token.kind ∈ kinds
  · rw [if_pos (by simpa using hmem)]
    have hkind : token.kind ≠ .eof := fun heq => hkinds (heq ▸ hmem)
    exact RefusesAt.advance_bind hpending hkind hending (hf token hmem)
  · rw [if_neg (by simpa using hmem)]
    exact hy s hending

theorem identifier_refuses (hV : ∀ token : Token, token.kind = .ident → V [token]) :
    Refuses V identifier :=
  Refuses.expect_one_bind (by decide) hV fun _ _ => .pure _

theorem gives_identifier : Gives identifier fun p _ => ∃ token : Token, token.kind = .ident ∧
    [token] = p := by
  apply gives_of_pending abreast_identifier
  intro s name s' hrun
  obtain ⟨p, _, ⟨hkind⟩, hpending, -⟩ := identifier_sound hrun
  exact ⟨_, ⟨_, hkind, rfl⟩, hpending⟩

theorem gives_read (budget : Nat) (production : Production) :
    Gives (read budget production) fun p _ => Phrase production p := by
  apply gives_of_pending (abreast_read budget production)
  intro s e s' hrun
  obtain ⟨p, _, hp, hpending, -⟩ := read_sound budget production hrun
  exact ⟨p, ⟨e, hp.derives⟩, hpending⟩

end Tokens

/-! ### Lists of items -/

/-- One item or more, with commas between them. -/
def Listed {ι : Type} (P : ι → Prop) (tokens : ι → List Token) (p : List Token) : Prop :=
  ∃ items : List ι, items ≠ [] ∧ (∀ item ∈ items, P item) ∧ CommaJoined (items.map tokens) p

section Lists

variable {ι : Type} {P : ι → Prop} {tokens : ι → List Token} {p q : List Token} {comma : Token}

theorem CommaJoined.snoc {items : List (List Token)} (h : CommaJoined items p)
    (hitems : items ≠ []) (hcomma : comma.kind = .comma) :
    CommaJoined (items ++ [q]) (p ++ comma :: q) := by
  induction h with
  | nil => exact absurd rfl hitems
  | single => exact .cons hcomma .single
  | cons hkind _ ih => simpa using CommaJoined.cons hkind (ih (by simp))

theorem listed_single {item : ι} (hitem : P item) : Listed P tokens (tokens item) :=
  ⟨[item], by simp, by simpa using hitem, .single⟩

theorem Listed.snoc {item : ι} (h : Listed P tokens p) (hcomma : comma.kind = .comma)
    (hitem : P item) : Listed P tokens (p ++ comma :: tokens item) := by
  obtain ⟨items, hitems, hP, hjoined⟩ := h
  have hmore : CommaJoined (items.map tokens ++ [tokens item]) (p ++ comma :: tokens item) :=
    hjoined.snoc (by simpa using hitems) hcomma
  refine ⟨items ++ [item], by simp, ?_, by simpa using hmore⟩
  simpa [or_imp, forall_and] using ⟨hP, hitem⟩

variable {item : Reading α} {close : Kind} {V : List Token → Prop}
  (hitem : Refuses (Starts fun p => ∃ i, P i ∧ tokens i = p) item)
  (hgives : Gives item fun p _ => ∃ i, P i ∧ tokens i = p) (hP : ∃ i, P i) (hclose : close ≠ .eof)
  (hcut : ∀ w w', w <+: w' → V w' → V w)
  (hV : ∀ p last, Listed P tokens p → last.kind = close → V (p ++ [last]))

include hitem hgives hP hclose hcut hV

/-- One round of the loop, which goes on with a comma and an item. -/
theorem round_refuses (hp : Listed P tokens p) {g : α → Reading (List α)}
    (hg : ∀ q comma first, (∃ i, P i ∧ tokens i = q) → comma.kind = .comma →
      Refuses (fun w => V (p ++ comma :: (q ++ w))) (g first)) :
    Refuses (fun w => V (p ++ w))
      (nextIs [close] >>= fun answer =>
        if answer then pure [] else expect [.comma, close] >>= fun _ => item >>= g) := by
  rw [nextIs_bind_eq]
  apply Refuses.peek_bind
  intro s token rest hending hpending
  by_cases hkind : token.kind = close
  · rw [if_pos (by simpa using hkind)]
    exact Refuses.pure [] s hending
  · rw [if_neg (by simpa using hkind)]
    apply RefusesAt.expect_bind hpending hending (by simpa using hclose.symm) (by simp)
    · intro token htoken
      rcases (by simpa using htoken : token.kind = .comma ∨ token.kind = close) with hcomma | hlast
      · obtain ⟨i, hi⟩ := hP
        exact hcut _ _ (by simp) (hV _ (anyToken close) (hp.snoc hcomma hi) rfl)
      · exact hV _ _ hp hlast
    · intro hmem
      have hcomma : token.kind = .comma := by simpa [hkind] using hmem
      apply Refuses.bind (hitem.imp _) hgives
      · exact fun q first hq => hg q token first hq hcomma
      · rintro w ⟨more, i, hi, htokens⟩
        have hlisted := hV _ (anyToken close) (hp.snoc hcomma hi) rfl
        rw [htokens] at hlisted
        exact hcut _ _ (by simp) hlisted

theorem separated_refuses (hp : Listed P tokens p) (rounds : List Token) :
    Refuses (fun w => V (p ++ w)) (separated close item rounds) := by
  induction rounds generalizing p with
  | nil =>
    rw [separated.eq_def]
    exact round_refuses hitem hgives hP hclose hcut hV hp fun _ _ _ _ _ => .pure _
  | cons _ rounds ih =>
    rw [separated]
    apply round_refuses hitem hgives hP hclose hcut hV hp
    rintro _ comma first ⟨i, hi, rfl⟩ hcomma
    simpa using (ih (hp.snoc hcomma hi)).bind_pure (first :: ·)

theorem enclosed_refuses {present : Reading Bool} (hpresent : Refuses V present)
    (hkeeps : Gives present fun p _ => p = []) : Refuses V (enclosed close present item) := by
  apply hpresent.bind hkeeps
  rintro _ answer rfl
  cases answer with
  | false => exact .pure _
  | true =>
    rw [if_pos rfl]
    apply Refuses.bind (hitem.imp _) hgives
    · rintro _ first ⟨i, hi, rfl⟩
      apply Refuses.get_bind
      intro s
      exact (separated_refuses hitem hgives hP hclose hcut hV (listed_single hi)
        s.pending).bind_pure _
    · rintro w ⟨more, i, hi, htokens⟩
      have hlisted := hV _ (anyToken close) (listed_single hi) rfl
      rw [htokens] at hlisted
      exact hcut _ _ (by simp) hlisted

end Lists

section Lists

variable {ι : Type} {P : ι → Prop}

theorem gives_enclosed (tokens : ι → List Token) (value : ι → α)
    {R : List Token → α → Set Kind → Prop} {item : Reading α} (hitem : Sound item R)
    (hread : ∀ n, Abreast n item item)
    (hR : ∀ p a opens, R p a opens → ∃ i, P i ∧ tokens i = p ∧ value i = a)
    {present : Reading Bool} (hpresent : Abreast 0 present present)
    (hkeeps : ∀ {s answer s'}, outcome present s = (.ok answer, s') → s'.pending = s.pending)
    {close : Kind} (hclose : close ≠ .eof) :
    Gives (enclosed close present item) fun p _ => p = [] ∨ Listed P tokens p := by
  apply gives_of_pending (abreast_enclosed hread hclose hpresent)
  intro s items s' hrun
  obtain ⟨p, henclosed, hpending⟩ := enclosed_sound hitem hkeeps hclose hrun
  refine ⟨p, ?_, hpending⟩
  cases henclosed with
  | none => exact .inl rfl
  | some hitems =>
    obtain ⟨is, his, hP, -, hjoined⟩ := hitems.exists_list tokens value hR
    exact .inr ⟨is, his, hP, hjoined⟩

end Lists

end LetLang.Parser
