import LetLang.Proofs.Parsing.Acceptance
import LetLang.Proofs.Parsing.Refusals
import LetLang.Proofs.Texts.Seam
/-!
# The first impossible token

A token is refused only where no expression goes on with it, however the tokens before it are
understood: the grammar is ambiguous, but a token that is refused after one reading of them is
impossible after all. The tokens before it begin an expression, and so they do with a token of each
kind that is asked for.
-/
namespace LetLang.Parser

open TokenStream

/-! ### Parameters and arguments -/

/-- The names between the bars of a function. -/
abbrev Parameters : List Token → Prop :=
  Listed (fun name : Token => name.kind = .ident) ([·])

/-- The expressions between the parentheses of a call. -/
abbrev Arguments : List Token → Prop :=
  Listed (fun item : List Token × Expr => Derives .argument item.1 item.2) (·.1)

section Enclosed

variable {V : List Token → Prop} (hcut : ∀ w w', w <+: w' → V w' → V w)

theorem gives_parameters :
    Gives (enclosed .vbar (nextIs [.ident]) identifier) fun p _ => p = [] ∨ Parameters p := by
  apply gives_enclosed _ Token.text identifier_sound (fun _ => abreast_identifier) _
    (abreast_nextIs _) pending_of_nextIs_same (by decide)
  rintro _ _ _ ⟨hkind⟩
  exact ⟨_, hkind, rfl, rfl⟩

include hcut in
theorem parameters_refuses (hV : ∀ p last, Parameters p → last.kind = .vbar → V (p ++ [last])) :
    Refuses V (enclosed .vbar (nextIs [.ident]) identifier) := by
  have hitem : Refuses (Starts fun p => ∃ token : Token, token.kind = .ident ∧ [token] = p)
      identifier := identifier_refuses fun token hkind => ⟨[], token, hkind, rfl⟩
  have hkeeps : Gives (nextIs [.ident]) fun p _ => p = [] :=
    gives_of_pending (abreast_nextIs _) fun s _ s' hrun =>
      ⟨[], rfl, (pending_of_nextIs_same hrun).symm⟩
  have hpresent : Refuses V (nextIs [.ident]) :=
    Refuses.peek_bind fun s _ _ hending _ => Refuses.pure _ s hending
  exact enclosed_refuses hitem gives_identifier ⟨anyToken .ident, rfl⟩ (by decide) hcut hV
    hpresent hkeeps

variable {budget : Nat}

theorem gives_arguments :
    Gives (enclosed .rparen (return !(← nextIs [.rparen])) (read budget .argument))
      fun p _ => p = [] ∨ Arguments p := by
  apply gives_enclosed _ Prod.snd (read_sound budget .argument)
    (fun _ => abreast_read budget .argument) _ ((abreast_nextIs _).bind fun _ => .pure _)
    pending_of_nextIs_not (by decide)
  intro p e opens h
  exact ⟨(p, e), h.derives, rfl, rfl⟩

include hcut in
theorem arguments_refuses
    (hargument : Refuses (Starts (Phrase .argument)) (read budget .argument))
    (hV : ∀ p last, Arguments p → last.kind = .rparen → V (p ++ [last])) :
    Refuses V (enclosed .rparen (return !(← nextIs [.rparen])) (read budget .argument)) := by
  have hphrase : ∀ p, Phrase .argument p →
      ∃ item : List Token × Expr, Derives .argument item.1 item.2 ∧ item.1 = p := by
    rintro p ⟨e, hp⟩
    exact ⟨(p, e), hp, rfl⟩
  have hgives : Gives (read budget .argument) fun p _ =>
      ∃ item : List Token × Expr, Derives .argument item.1 item.2 ∧ item.1 = p := by
    intro s e s' hrun
    obtain ⟨p, hp, hpasses⟩ := gives_read budget .argument s e s' hrun
    exact ⟨p, hphrase p hp, hpasses⟩
  have hsome : ∃ item : List Token × Expr, Derives .argument item.1 item.2 := by
    obtain ⟨p, e, hp⟩ := exists_phrase .argument
    exact ⟨(p, e), hp⟩
  have hkeeps : Gives (return !(← nextIs [.rparen])) fun p _ => p = [] :=
    gives_of_pending ((abreast_nextIs _).bind fun _ => .pure _) fun s _ s' hrun =>
      ⟨[], rfl, (pending_of_nextIs_not hrun).symm⟩
  have hpresent : Refuses V (return !(← nextIs [.rparen])) := Refuses.nextIs_bind fun _ => .pure _
  exact enclosed_refuses (hargument.imp fun w hw => hw.imp hphrase) hgives hsome (by decide)
    hcut hV hpresent hkeeps

end Enclosed

/-! ### Loops -/

section Loops

variable {p : List Token}

theorem operations_refuses {operand : Reading Expr} {level : Level}
    (hoperand : Refuses (Starts (Phrase level.operand)) operand)
    (hgives : Gives operand fun p _ => Phrase level.operand p) (rounds : List Token) (left : Expr)
    (hp : Phrase (.infixed level) p) :
    Refuses (fun w => Starts (Phrase (.infixed level)) (p ++ w))
      (operations level operand rounds left) := by
  induction rounds generalizing left p with
  | nil =>
    rw [operations]
    exact Refuses.peek_bind fun s _ _ hending _ => Refuses.pure left s hending
  | cons _ rounds ih =>
    rw [operations]
    apply Refuses.peek_bind
    intro s token rest hending hpending
    cases hop : level.operator? token.kind with
    | none => exact Refuses.pure left s hending
    | some op =>
      obtain ⟨e, hp⟩ := hp
      have hmore : ∀ q, Phrase level.operand q → Phrase (.infixed level) (p ++ token :: q) := by
        rintro q ⟨right, hq⟩
        exact ⟨_, hp.operation (operator?_eq_some_iff.1 hop) hq⟩
      apply RefusesAt.advance_bind hpending (ne_eof_of_operator? hop) hending
      apply Refuses.bind (hoperand.imp _) hgives
      · intro q right hq
        simpa using ih (.binary op left right) (hmore q hq)
      · intro w hw
        simpa using hw.after (p ++ [token]) fun v hv => by simpa using hmore v hv

/-- A call goes on with its callee. -/
theorem phrase_call {left right : Token} {q : List Token} (hp : Phrase .application p)
    (hleft : left.kind = .lparen) (hright : right.kind = .rparen)
    (hq : q = [] ∨ Arguments q) :
    Phrase .application (p ++ left :: (q ++ [right])) := by
  obtain ⟨callee, hp⟩ := hp
  rcases hq with rfl | ⟨items, hitems, heach, hjoined⟩
  · exact ⟨_, hp.callUnit hleft hright⟩
  · exact ⟨_, hp.call hleft hitems heach hjoined hright⟩

theorem calls_refuses {budget : Nat}
    (hargument : Refuses (Starts (Phrase .argument)) (read budget .argument)) (rounds : List Token)
    (callee : Expr) (hp : Phrase .application p) :
    Refuses (fun w => Starts (Phrase .application) (p ++ w))
      (calls (read budget .argument) rounds callee) := by
  induction rounds generalizing callee p with
  | nil =>
    rw [calls]
    exact Refuses.nextIs_bind fun _ => .pure _
  | cons _ rounds ih =>
    rw [calls]
    apply Refuses.nextIs_bind
    intro answer
    cases answer with
    | false => exact .pure _
    | true =>
      rw [if_pos rfl]
      apply Refuses.expect_one_bind (by decide)
      · intro left hleft
        have hright : (anyToken .rparen).kind = .rparen := rfl
        exact ⟨[anyToken .rparen], by simpa using phrase_call hp hleft hright (.inl rfl)⟩
      intro left hleft
      apply Refuses.bind (arguments_refuses _ hargument _) gives_arguments
      · intro q arguments hq
        have hcall : ∀ right : Token, right.kind = .rparen →
            Phrase .application (p ++ left :: (q ++ [right])) :=
          fun right hright => phrase_call hp hleft hright hq
        apply Refuses.expect_one_bind (by decide)
        · intro right hright
          exact ⟨[], by simpa using hcall right hright⟩
        · intro right hright
          simpa using ih (applied callee arguments) (hcall right hright)
      · intro w w' hw h
        exact h.of_isPrefix (by simpa using hw)
      · intro q right hq hright
        exact ⟨[], by simpa using phrase_call hp hleft hright (.inr hq)⟩

end Loops

/-! ### Productions -/

section Productions

variable {budget : Nat}
  (ih : ∀ production, Refuses (Starts (Phrase production)) (read budget production))

include ih

theorem expr_refuses : Refuses (Starts (Phrase .expr)) (step (read budget) .expr) := by
  apply Refuses.peek_bind
  intro s token rest hending hpending
  split
  · exact (ih .letExpr).imp (fun w hw => hw.imp fun p ⟨e, hp⟩ => ⟨e, .exprLet hp⟩) s hending
  · exact (ih .ifExpr).imp (fun w hw => hw.imp fun p ⟨e, hp⟩ => ⟨e, .exprIf hp⟩) s hending
  · exact (ih .fnExpr).imp (fun w hw => hw.imp fun p ⟨e, hp⟩ => ⟨e, .exprFn hp⟩) s hending
  · exact (ih (.infixed .logic)).imp (fun w hw => hw.imp fun p ⟨e, hp⟩ => ⟨e, .exprLogic hp⟩)
      s hending

theorem letExpr_refuses : Refuses (Starts (Phrase .letExpr)) (step (read budget) .letExpr) := by
  have hbound : ∀ {word name eq : Token} {w : List Token}, word.kind = .letWord →
      name.kind = .ident → eq.kind = .eq → Starts (Phrase .expr) w →
        Starts (Phrase .letExpr) (word :: name :: eq :: w) := by
    rintro word name eq w hword hname heq ⟨more, e, hmore⟩
    exact ⟨more, _, .define hword hname heq hmore⟩
  have hident : (anyToken .ident).kind = .ident := rfl
  have hequal : (anyToken .eq).kind = .eq := rfl
  apply Refuses.expect_one_bind (by decide)
  · intro word hword
    exact (hbound hword hident hequal (starts_nil .expr)).of_isPrefix (by simp)
  intro word hword
  refine Refuses.bind (identifier_refuses ?_) gives_identifier ?_
  · intro name hname
    exact (hbound hword hname hequal (starts_nil .expr)).of_isPrefix (by simp)
  rintro _ _ ⟨name, hname, rfl⟩
  apply Refuses.expect_one_bind (by decide)
  · exact fun eq heq => hbound hword hname heq (starts_nil .expr)
  intro eq heq
  apply Refuses.bind ((ih .expr).imp _) (gives_read budget .expr)
  · rintro p bound ⟨e, hp⟩
    apply Refuses.taken (by decide) _ (.pure _)
    intro inWord hin
    apply Refuses.bind_pure ((ih .expr).imp _)
    rintro w ⟨more, e', hmore⟩
    exact ⟨more, _, by simpa using Derives.letIn hword hname heq hp (by simpa using hin) hmore⟩
  · exact fun w hw => hbound hword hname heq hw

theorem ifExpr_refuses : Refuses (Starts (Phrase .ifExpr)) (step (read budget) .ifExpr) := by
  have hyes : ∀ {word thenWord : Token} {p w : List Token}, word.kind = .ifWord → Phrase .expr p →
      thenWord.kind = .thenWord → Starts (Phrase .expr) w →
        Starts (Phrase .ifExpr) (word :: (p ++ thenWord :: w)) := by
    rintro word thenWord p w hword ⟨cond, hp⟩ hthen ⟨more, yes, hmore⟩
    exact ⟨more, _, by simpa using Derives.ifThen hword hp hthen hmore⟩
  have hcond : ∀ {word : Token} {w : List Token}, word.kind = .ifWord →
      Starts (Phrase .expr) w → Starts (Phrase .ifExpr) (word :: w) := by
    rintro word w hword ⟨more, hmore⟩
    have hthen : (anyToken .thenWord).kind = .thenWord := rfl
    exact (hyes hword hmore hthen (starts_nil .expr)).of_isPrefix (by simp)
  apply Refuses.expect_one_bind (by decide)
  · exact fun word hword => hcond hword (starts_nil .expr)
  intro word hword
  apply Refuses.bind ((ih .expr).imp fun w hw => hcond hword hw) (gives_read budget .expr)
  intro p cond hp
  apply Refuses.expect_one_bind (by decide)
  · exact fun thenWord hthen => hyes hword hp hthen (starts_nil .expr)
  intro thenWord hthen
  apply Refuses.bind ((ih .expr).imp fun w hw => hyes hword hp hthen hw) (gives_read budget .expr)
  rintro q yes ⟨e', hq⟩
  apply Refuses.taken (by decide) _ (.pure _)
  intro elseWord helse
  apply Refuses.bind_pure ((ih .expr).imp _)
  rintro w ⟨more, e'', hmore⟩
  obtain ⟨e, hp⟩ := hp
  have helse : elseWord.kind = .elseWord := by simpa using helse
  exact ⟨more, _, by simpa using Derives.ifThenElse hword hp hthen hq helse hmore⟩

theorem fnExpr_refuses : Refuses (Starts (Phrase .fnExpr)) (step (read budget) .fnExpr) := by
  have hbody : ∀ {left right arrow : Token} {p w : List Token}, left.kind = .vbar →
      (p = [] ∨ Parameters p) → right.kind = .vbar → arrow.kind = .arrow →
        Starts (Phrase .expr) w → Starts (Phrase .fnExpr) (left :: (p ++ right :: arrow :: w)) := by
    rintro left right arrow p w hleft hp hright harrow ⟨more, body, hmore⟩
    rcases hp with rfl | ⟨names, hnames, hkinds, hjoined⟩
    · exact ⟨more, _, .thunk hleft hright harrow hmore⟩
    · exact ⟨more, _, by simpa using Derives.fn hleft hnames hkinds hjoined hright harrow hmore⟩
  have harrow : (anyToken .arrow).kind = .arrow := rfl
  have hbars : ∀ {left right : Token} {p : List Token}, left.kind = .vbar →
      (p = [] ∨ Parameters p) → right.kind = .vbar →
        Starts (Phrase .fnExpr) (left :: (p ++ [right])) :=
    fun hleft hp hright => (hbody hleft hp hright harrow (starts_nil .expr)).of_isPrefix (by simp)
  apply Refuses.expect_one_bind (by decide)
  · intro left hleft
    have hright : (anyToken .vbar).kind = .vbar := rfl
    exact (hbars hleft (.inl rfl) hright).of_isPrefix (by simp)
  intro left hleft
  refine Refuses.bind (parameters_refuses ?_ ?_) gives_parameters ?_
  · intro w w' hw h
    exact h.of_isPrefix (by simpa using hw)
  · exact fun p right hp hright => hbars hleft (.inr hp) hright
  intro p params hp
  apply Refuses.expect_one_bind (by decide)
  · exact fun right hright => hbars hleft hp hright
  intro right hright
  apply Refuses.expect_one_bind (by decide)
  · exact fun arrow harrow => hbody hleft hp hright harrow (starts_nil .expr)
  intro arrow harrow
  exact Refuses.bind_pure ((ih .expr).imp fun w hw => hbody hleft hp hright harrow hw) _

theorem infixed_refuses (level : Level) :
    Refuses (Starts (Phrase (.infixed level))) (step (read budget) (.infixed level)) := by
  have hoperand : ∀ p, Phrase level.operand p → Phrase (.infixed level) p :=
    fun p ⟨e, hp⟩ => ⟨e, .operand hp⟩
  apply Refuses.bind ((ih level.operand).imp fun w hw => hw.imp hoperand)
    (gives_read budget level.operand)
  intro p left hp
  apply Refuses.get_bind
  intro s
  exact operations_refuses (ih level.operand) (gives_read budget level.operand) s.pending left
    (hoperand p hp)

theorem unary_refuses : Refuses (Starts (Phrase .unary)) (step (read budget) .unary) := by
  apply Refuses.peek_bind
  intro s token rest hending hpending
  cases hop : unaryOperator? token.kind with
  | none =>
    exact (ih .application).imp (fun w hw => hw.imp fun p ⟨e, hp⟩ => ⟨e, .plain hp⟩) s hending
  | some op =>
    apply RefusesAt.advance_bind hpending (ne_eof_of_unaryOperator? hop) hending
    apply Refuses.bind_pure ((ih .application).imp _)
    rintro w ⟨more, e, hmore⟩
    rcases unaryOperator?_eq_some_iff.1 hop with ⟨hword, -⟩ | ⟨hsign, -⟩
    · exact ⟨more, _, .not hword hmore⟩
    · exact ⟨more, _, .negate hsign hmore⟩

theorem application_refuses :
    Refuses (Starts (Phrase .application)) (step (read budget) .application) := by
  have hcallee : ∀ p, Phrase .primary p → Phrase .application p := fun p ⟨e, hp⟩ => ⟨e, .callee hp⟩
  apply Refuses.bind ((ih .primary).imp fun w hw => hw.imp hcallee) (gives_read budget .primary)
  intro p callee hp
  apply Refuses.get_bind
  intro s
  exact calls_refuses (ih .argument) s.pending callee (hcallee p hp)

theorem primary_refuses : Refuses (Starts (Phrase .primary)) (step (read budget) .primary) := by
  have hparen : ∀ {left : Token} {w : List Token}, left.kind = .lparen →
      Starts (Phrase .expr) w → Starts (Phrase .primary) (left :: w) := by
    rintro left w hleft ⟨more, e, hmore⟩
    have hright : (anyToken .rparen).kind = .rparen := rfl
    exact ⟨more ++ [anyToken .rparen], e, by simpa using Derives.paren hleft hmore hright⟩
  apply Refuses.expect_bind (by decide) (by decide)
  · intro token htoken
    simp only [primaryKinds, List.mem_cons, List.not_mem_nil, or_false] at htoken
    rcases htoken with hkind | hkind | hkind | hkind | hkind
    · exact hparen hkind (starts_nil .expr)
    · exact ⟨[], _, .int hkind⟩
    · exact ⟨[], _, .ident hkind⟩
    · exact ⟨[], _, .trueWord hkind⟩
    · exact ⟨[], _, .falseWord hkind⟩
  intro left _
  cases hleft : left.kind with
  | lparen =>
    apply Refuses.nextIs_bind
    intro answer
    cases answer with
    | true =>
      rw [if_pos rfl]
      apply Refuses.expect_one_bind (by decide)
      · exact fun right hright => ⟨[], _, .unit hleft hright⟩
      · exact fun _ _ => .pure _
    | false =>
      rw [if_neg Bool.false_ne_true]
      apply Refuses.bind ((ih .expr).imp fun w hw => hparen hleft hw) (gives_read budget .expr)
      rintro p inner ⟨e, hp⟩
      apply Refuses.expect_one_bind (by decide)
      · intro right hright
        exact ⟨[], _, by simpa using Derives.paren hleft hp hright⟩
      · exact fun _ _ => .pure _
  | _ => exact .pure _

end Productions

/-- Reading a production refuses a token only after a beginning of a phrase, and asks for kinds
that go on with it. -/
theorem read_refuses (budget : Nat) (production : Production) :
    Refuses (Starts (Phrase production)) (read budget production) := by
  induction budget generalizing production with
  | zero =>
    intro s _ expected found source s' hrun
    cases hrun
  | succ budget ih =>
    cases production with
    | expr => exact expr_refuses ih
    | letExpr => exact letExpr_refuses ih
    | ifExpr => exact ifExpr_refuses ih
    | fnExpr => exact fnExpr_refuses ih
    | infixed level => exact infixed_refuses ih level
    | unary => exact unary_refuses ih
    | application => exact application_refuses ih
    | argument => exact (ih .expr).imp fun w hw => hw.imp fun p ⟨e, hp⟩ => ⟨e, .argument hp⟩
    | primary => exact primary_refuses ih

/-! ### No phrase goes on with a refused token -/

/-- What a reader leaves tells what it has taken. -/
theorem passes_of_fault {budget : Nat} {production : Production} {s t : TokenStream}
    {fault : Fault} {before rest : List Token}
    (hrun : outcome (read budget production) s = (.error fault, t))
    (hs : s.pending = before ++ rest) (ht : t.pending = rest) : s.Passes t before := by
  obtain ⟨q, hpasses⟩ := (abreast_read budget production).passes s
  rw [hrun] at hpasses
  have hbefore : before = q := by
    have hpending := hpasses.pending
    rw [ht, hs] at hpending
    exact List.append_cancel_right hpending
  rwa [hbefore]

/-- A reader that fails before a token fails so whatever comes after the token. -/
theorem read_fault_of_shared {budget : Nat} {production : Production} {s s' t : TokenStream}
    {fault : Fault} {before rest rest' : List Token} {found : Token}
    (hrun : outcome (read budget production) s = (.error fault, t))
    (hs : s.pending = before ++ found :: rest) (ht : t.pending = found :: rest)
    (hs' : s'.pending = before ++ found :: rest') (hsource : s'.source = s.source) :
    (outcome (read budget production) s').1 = .error fault := by
  have hshares : s.Shares s' (before ++ [found]) :=
    ⟨hsource, ⟨rest, by simp [hs]⟩, ⟨rest', by simp [hs']⟩⟩
  obtain ⟨q, hpasses, hq⟩ :=
    abreast_read budget production s s' (before ++ [found]) (Nat.le_refl _) hshares
  rw [hrun] at hpasses hq
  rcases hq with hlong | ⟨_, _, hresult, _⟩
  · -- The reader has not taken the token that it fails before.
    have hlength := hlong.length_le
    have htaken := congrArg List.length (hs.symm.trans hpasses.pending)
    simp only [ht, List.length_append, List.length_cons, List.length_nil] at hlength htaken
    omega
  · exact hresult

/-- An expression as a whole is read, unless the budget runs out. -/
theorem fault_eq_of_derives {budget pos : Nat} {s : TokenStream} {p : List Token} {e : Expr}
    {fault : Fault} (hderives : Derives .expr p e) (hs : s.pending = p ++ [Token.eof pos])
    (hfault : (outcome (parse budget) s).1 = .error fault) : fault = .recursionLimit := by
  by_contra hne
  obtain ⟨enough, e', hwhole⟩ := exists_budget_of_derives hderives pos
  obtain ⟨s', hread, -⟩ := hwhole (max budget enough) (Nat.le_max_right _ _) s hs
  have hkept : ¬ RanOut (outcome (parse budget) s).1 := by simpa [hfault] using hne
  have hsame := read_prolongs (Nat.le_max_left budget enough) .expr s hkept
  rw [parse, hsame] at hread
  rw [parse, hread] at hfault
  cases hfault

/-- No expression goes on with a token that is refused. -/
theorem not_derives_of_refused {budget : Nat} {s t : TokenStream} {before rest : List Token}
    {expected : List Kind} {found : Token} {source : String}
    (hrun : outcome (parse budget) s =
      (.error (.language (.unexpectedToken expected found source)), t))
    (hs : s.pending = before ++ found :: rest) (ht : t.pending = found :: rest)
    (more : List Token) (e : Expr) : ¬ Derives .expr (before ++ found :: more) e := by
  intro hderives
  let s' := TokenStream.ofFeed s.source ⟨before ++ found :: more ++ [Token.eof 0], none⟩
  have hs' : s'.pending = before ++ found :: (more ++ [Token.eof 0]) := by
    simp [s', ofFeed, pending]
  have hfault := read_fault_of_shared hrun hs ht hs' rfl
  have hlimit := fault_eq_of_derives hderives (by simpa using hs') hfault
  cases hlimit

/-- If reading a list of tokens refuses one of them, then the tokens before it begin an expression,
no expression goes on with it, and every kind that is asked for goes on with the tokens before it;
if it is the end of the source, then the list is no expression. The refused token is the next of
the stream, all tokens after it are still to come, and the one before it was taken last. -/
theorem parse_refuses_first_impossible_token (source : String) {ts : List Token} {pos budget : Nat}
    (hts : ∀ token ∈ ts, token.kind ≠ .eof) {expected : List Kind} {found : Token} {named : String}
    {stream' : TokenStream}
    (h : outcome (parse budget) (TokenStream.ofFeed source ⟨ts ++ [Token.eof pos], none⟩) =
      (.error (.language (.unexpectedToken expected found named)), stream')) :
    ∃ before rest, ts ++ [Token.eof pos] = before ++ found :: rest ∧
      (∃ more e, Derives .expr (before ++ more) e) ∧
      (∀ more e, ¬ Derives .expr (before ++ found :: more) e) ∧
      (found.kind = .eof → before = ts ∧ ∀ e, ¬ Derives .expr ts e) ∧
      (∀ kind ∈ expected, ∃ token : Token, token.kind = kind ∧
        ∃ more e, Derives .expr (before ++ token :: more) e) ∧
      (outcome TokenStream.peek stream').1 = .ok found ∧ stream'.last = before.getLast? ∧
      stream'.pending = found :: rest := by
  obtain ⟨before, rest, hs, hs', hne, hkinds⟩ := read_refuses budget .expr _ rfl _ _ _ _ h
  have hviable : ∀ kind ∈ expected, ∃ token : Token, token.kind = kind ∧
      ∃ more e, Derives .expr (before ++ token :: more) e := by
    intro kind hkind
    obtain ⟨token, htoken, more, e, hderives⟩ := hkinds kind hkind
    exact ⟨token, htoken, more, e, by simpa using hderives⟩
  have hsplit : ts ++ [Token.eof pos] = before ++ found :: rest := hs
  refine ⟨before, rest, hsplit, ?_, not_derives_of_refused h hs hs', ?_, hviable, ?_, ?_, hs'⟩
  · obtain ⟨kind, hkind⟩ := List.exists_mem_of_ne_nil expected hne
    obtain ⟨token, -, more, hmore⟩ := hviable kind hkind
    exact ⟨token :: more, hmore⟩
  · intro hfound
    have hbefore : before = ts := Program.eq_of_append_eof hsplit hfound hts
    refine ⟨hbefore, fun e hderives => ?_⟩
    have hlimit := fault_eq_of_derives hderives rfl (congrArg Prod.fst h)
    cases hlimit
  · obtain ⟨s'', hpeek, -⟩ := passes_of_peek hs'
    rw [hpeek]
  · rw [(passes_of_fault h hs hs').last]
    simp [ofFeed]

/-- Both of two nested `let`s have their `in`, so that a third one is refused. -/
theorem parse_refuses_first_impossible_token_third_in :
    let source := "(let x = let y = 1 in 2 in 3 in 4)"
    let before : List Token :=
      [⟨.lparen, "(", 0⟩, ⟨.letWord, "let", 1⟩, ⟨.ident, "x", 5⟩, ⟨.eq, "=", 7⟩,
        ⟨.letWord, "let", 9⟩, ⟨.ident, "y", 13⟩, ⟨.eq, "=", 15⟩, ⟨.int, "1", 17⟩,
        ⟨.inWord, "in", 19⟩, ⟨.int, "2", 22⟩, ⟨.inWord, "in", 24⟩, ⟨.int, "3", 27⟩]
    let found : Token := ⟨.inWord, "in", 29⟩
    let rest : List Token := [⟨.int, "4", 32⟩, ⟨.rparen, ")", 33⟩]
    let last := outcome (parse 40) (TokenStream.ofFeed source
      ⟨before ++ found :: rest ++ [Token.eof 34], none⟩)
    (∀ token ∈ before ++ found :: rest, token.kind ≠ .eof) ∧
      last.1 = .error (.language (.unexpectedToken [.rparen] found source)) ∧
      last.2.pending = found :: (rest ++ [Token.eof 34]) ∧
      (∀ more e, ¬ Derives .expr (before ++ found :: more) e) ∧
      ∃ token : Token, token.kind = .rparen ∧
        ∃ more e, Derives .expr (before ++ token :: more) e := by
  intro source before found rest last
  have hts : ∀ token ∈ before ++ found :: rest, token.kind ≠ .eof := by decide
  have hlast : last.1 = .error (.language (.unexpectedToken [.rparen] found source)) := by
    decide +kernel
  have hpending : last.2.pending = found :: (rest ++ [Token.eof 34]) := by decide +kernel
  have hrun : outcome (parse 40) (TokenStream.ofFeed source
      ⟨before ++ found :: rest ++ [Token.eof 34], none⟩) = last := rfl
  clear_value last
  obtain ⟨_, stream'⟩ := last
  obtain rfl := hlast
  have hstops := parse_refuses_first_impossible_token source hts hrun
  clear_value before rest
  obtain ⟨before', rest', hsplit, -, hnone, -, hkinds, -, -, hrest⟩ := hstops
  obtain rfl : rest ++ [Token.eof 34] = rest' := (List.cons.inj (hpending.symm.trans hrest)).2
  obtain rfl : before = before' := by
    rw [List.append_assoc] at hsplit
    exact List.append_cancel_right hsplit
  exact ⟨hts, rfl, hpending, hnone, hkinds .rparen (by simp)⟩

end LetLang.Parser
