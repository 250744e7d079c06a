import LetLang.Proofs.Parsing.Completeness
import LetLang.Proofs.Parsing.Moved
import LetLang.Proofs.Texts
/-!
# The seam between two texts

A text that is read to its end is read alike with a line behind it that begins with a token which
goes on with no expression: reading stops at the same places. What comes after the seam is read as
if it stood alone, but for the places that a fault names.
-/
namespace LetLang

/-! ### Slashes and stars in phrases -/

namespace Lexer

theorem Apart.cons {token : Token} {tokens : List Token} {kind : Kind} (h : Apart tokens)
    (hkind : token.kind = kind) (hne : kind ≠ .slash) : Apart (token :: tokens) := by
  subst hkind
  cases tokens with
  | nil => exact hne
  | cons next tokens => exact ⟨fun hslash => absurd hslash hne, h⟩

theorem Apart.append {p q : List Token} (hp : Apart p) (hq : Apart q) : Apart (p ++ q) := by
  induction p with
  | nil => exact hq
  | cons first p ih =>
    cases p with
    | nil => exact hq.cons rfl hp
    | cons second p => exact ⟨hp.1, ih hp.2⟩

/-- A slash may stand before a phrase, since no phrase begins with a star. -/
theorem Apart.cons_of_begins {token : Token} {tokens : List Token} {kinds : List Kind}
    (h : Apart tokens) (hbegins : Parser.Begins kinds tokens) (hkinds : .star ∉ kinds) :
    Apart (token :: tokens) := by
  obtain ⟨next, rest, rfl, hnext⟩ := hbegins
  refine ⟨fun _ hstar => ?_, h⟩
  rw [hstar] at hnext
  exact hkinds hnext

end Lexer

namespace Parser

open Lexer

theorem Items.apart {α : Type} {R : List Token → α → Set Kind → Prop}
    (hR : ∀ {p a opens}, R p a opens → Apart p) {close : Kind} {p : List Token} {items : List α}
    (h : Items R close p items) : Apart p := by
  induction h with
  | single hitem _ => exact hR hitem
  | cons hitem hcomma _ _ ih => exact (hR hitem).append (ih.cons hcomma (by decide))

theorem Enclosed.apart {α : Type} {R : List Token → α → Set Kind → Prop}
    (hR : ∀ {p a opens}, R p a opens → Apart p) {close : Kind} {p : List Token} {items : List α}
    (h : Enclosed R close p items) : Apart p := by
  cases h with
  | none => trivial
  | some h => exact h.apart hR

theorem Operations.apart {R : List Token → Expr → Set Kind → Prop} {level : Level}
    {kinds : List Kind} (hkinds : .star ∉ kinds)
    (hR : ∀ {p e opens}, R p e opens → Apart p ∧ Begins kinds p) {left e : Expr}
    {opens opens' : Set Kind} {p : List Token} (h : Operations R level left opens p e opens') :
    Apart p := by
  induction h with
  | done => trivial
  | more _ _ hright _ ih =>
    obtain ⟨hapart, hbegins⟩ := hR hright
    exact (hapart.append ih).cons_of_begins (hbegins.append _) hkinds

theorem Calls.apart {R : List Token → Expr → Set Kind → Prop}
    (hR : ∀ {p e opens}, R p e opens → Apart p) {callee e : Expr} {p : List Token}
    (h : Calls R callee p e) : Apart p := by
  induction h with
  | done => trivial
  | more hleft harguments hright _ ih =>
    exact ((harguments.apart hR).append (ih.cons hright (by decide))).cons hleft (by decide)

/-- No phrase holds a slash right before a star, or ends with a slash. -/
theorem Greedy.apart {budget : Nat} {production : Production} {p : List Token} {e : Expr}
    {opens : Set Kind} (h : Greedy budget production p e opens) : Apart p := by
  induction budget generalizing production p e opens with
  | zero => exact absurd h id
  | succ budget ih =>
    cases h with
    | exprLet h | exprIf h | exprFn h | exprLogic h | argument h | plain h => exact ih h
    | define hword hname heq hbound =>
      exact (((ih hbound).cons heq (by decide)).cons hname (by decide)).cons hword (by decide)
    | letIn hword hname heq hbound _ hin hbody =>
      have hrest := (ih hbound).append ((ih hbody).cons hin (by decide))
      exact ((hrest.cons heq (by decide)).cons hname (by decide)).cons hword (by decide)
    | ifThen hword hcond _ hthen hyes =>
      exact ((ih hcond).append ((ih hyes).cons hthen (by decide))).cons hword (by decide)
    | ifThenElse hword hcond _ hthen hyes _ helse hno =>
      have hbranches := (ih hyes).append ((ih hno).cons helse (by decide))
      exact ((ih hcond).append (hbranches.cons hthen (by decide))).cons hword (by decide)
    | fn hleft hparams hright harrow hbody =>
      have hname : ∀ {p name opens}, Name p name opens → Apart p := by
        rintro _ _ _ ⟨hkind⟩
        simp [Apart, hkind]
      have hrest := ((ih hbody).cons harrow (by decide)).cons hright (by decide)
      exact ((hparams.apart hname).append hrest).cons hleft (by decide)
    | @infixed level _ _ _ _ _ _ hleft hrest =>
      have hkinds : .star ∉ level.operand.starters := by cases level <;> decide
      exact (ih hleft).append (hrest.apart hkinds fun h => ⟨ih h, h.begins⟩)
    | unary hop h =>
      rcases unaryOperator?_eq_some_iff.1 hop with ⟨hkind, -⟩ | ⟨hkind, -⟩
      · exact (ih h).cons hkind (by decide)
      · exact (ih h).cons hkind (by decide)
    | application hcallee hcalls => exact (ih hcallee).append (hcalls.apart ih)
    | @paren _ right _ _ _ hleft h _ hright =>
      have hlast : Apart [right] := by simp [Apart, hright]
      exact ((ih h).append hlast).cons hleft (by decide)
    | unit hleft hright => simp [Apart, hleft, hright]
    | int h | ident h => simp [Apart, h]
    | bool h => rcases h with h | h <;> simp [Apart, h]

/-! ### Reading across the seam -/

/-- The kinds that go on with no expression, but may stand after one. -/
def boundaryKinds : List Kind :=
  [.eof, .letWord, .ifWord, .vbar, .notWord, .int, .ident, .trueWord, .falseWord]

theorem notMem_extenders_of_boundary {kind : Kind} (h : kind ∈ boundaryKinds) :
    kind ∉ Production.expr.extenders := by
  revert h
  cases kind <;> decide

theorem Ended.of_append {opens : Set Kind} {rest following : List Token} {last : Token}
    (h : Ended opens (rest ++ last :: following)) : Ended opens (rest ++ [last]) := by
  cases rest with
  | nil => exact h
  | cons token rest => exact h

/-- A phrase that ends before the end of the source ends before every boundary. -/
theorem Greedy.ended_boundary {budget : Nat} {p rest : List Token} {e : Expr}
    {opens : Set Kind} {last : Token} (h : Greedy budget .expr p e opens)
    (hended : Ended opens (rest ++ [last])) {more : List Token}
    (hmore : Begins boundaryKinds more) : Ended opens (rest ++ more) := by
  cases rest with
  | nil =>
    obtain ⟨token, more, rfl, hkind⟩ := hmore
    exact ended_cons.2 (h.notMem_opens (notMem_extenders_of_boundary hkind))
  | cons token rest => exact hended

variable {budget : Nat} {s s' : TokenStream} {e : Expr} {more : Bool}

theorem parseNext_sound (h : outcome (parseNext budget) s = (.ok (e, more), s')) :
    ∃ p opens, Greedy budget .expr p e opens ∧ s.pending = p ++ s'.pending ∧
      Ended opens s'.pending := by
  obtain ⟨_, s₁, hread, h⟩ := outcome_bind_eq_ok.1 h
  obtain ⟨_, s₂, hnext, h⟩ := outcome_bind_eq_ok.1 h
  cases h
  obtain ⟨p, opens, hp, hpending, hended⟩ := read_sound budget .expr hread
  rw [← pending_of_nextIs_same hnext] at hpending hended
  exact ⟨p, opens, hp, hpending, hended⟩

theorem parseNext_complete {p rest : List Token} {opens : Set Kind}
    (hp : Greedy budget .expr p e opens) (hended : Ended opens rest) :
    ∃ more, Takes (parseNext budget) p (e, more) rest := by
  cases rest with
  | nil =>
    have hmem := hp.lparen_mem_opens (by simp)
    rw [show opens = ∅ from hended] at hmem
    exact absurd hmem id
  | cons token rest =>
    have hread := read_complete budget .expr hp hended
    by_cases hkind : token.kind ∈ [.eof]
    · exact ⟨_, hread.bind_look ((takes_nextIs_of_mem hkind).look_bind takes_pure)⟩
    · exact ⟨_, hread.bind_look ((takes_nextIs_of_notMem hkind).look_bind takes_pure)⟩

end Parser

namespace Program

open LetLang.Parser Lexer

variable {parsing : Nat} {rounds : List Token} {s : TokenStream} {token : Token}
  {rest : List Token}

theorem readStream_of_nil (h : s.pending = []) :
    readStream parsing rounds s = ([], some (s.feed.ending.getD .exhausted)) := by
  obtain ⟨s₁, hpeek⟩ := TokenStream.outcome_peek_of_nil h
  have hend : Reading.on TokenStream.atEnd s = (.error (s.feed.ending.getD .exhausted), s₁) :=
    outcome_bind_of_error hpeek _
  rw [readStream.eq_def]
  dsimp only
  rw [hend]

theorem readStream_of_eof (h : s.pending = token :: rest) (hkind : token.kind = .eof) :
    readStream parsing rounds s = ([], none) := by
  obtain ⟨s₁, hnext, -⟩ := TokenStream.outcome_nextIs_of_cons [.eof] h
  have hend : Reading.on TokenStream.atEnd s = (.ok true, s₁) := by
    rwa [decide_eq_true (by simp [hkind])] at hnext
  rw [readStream.eq_def]
  dsimp only
  rw [hend]

/-- Before a token that is not the end of the source, an expression is read. -/
theorem readStream_of_cons (h : s.pending = token :: rest) (hkind : token.kind ≠ .eof)
    (round : Token) :
    ∃ s₁, s₁.view = s.view ∧ readStream parsing (round :: rounds) s =
      match outcome (parseNext parsing) s₁ with
      | (.error fault, _) => ([], some fault)
      | (.ok (expr, _), s₂) =>
        (expr :: (readStream parsing rounds s₂).1, (readStream parsing rounds s₂).2) := by
  obtain ⟨s₁, hnext, hview⟩ := TokenStream.outcome_nextIs_of_cons [.eof] h
  have hend : Reading.on TokenStream.atEnd s = (.ok false, s₁) := by
    rwa [decide_eq_false (by simp [hkind])] at hnext
  refine ⟨s₁, hview, ?_⟩
  rw [readStream.eq_def]
  dsimp only
  rw [hend]
  rfl

/-- A stream that is read to its end begins with an expression, unless it is at its end. -/
theorem exists_of_readStream_eq {exprs : List Expr} {round : Token}
    (h : readStream parsing (round :: rounds) s = (exprs, none))
    (hpending : s.pending = token :: rest) (hkind : token.kind ≠ .eof) :
    ∃ p opens expr others s', Greedy parsing .expr p expr opens ∧ s.pending = p ++ s'.pending ∧
      Ended opens s'.pending ∧ exprs = expr :: others ∧
      readStream parsing rounds s' = (others, none) := by
  obtain ⟨s₁, hview, hread⟩ := readStream_of_cons hpending hkind round
  rw [hread] at h
  rcases hparse : outcome (parseNext parsing) s₁ with ⟨fault | ⟨expr, _⟩, s'⟩
  · rw [hparse] at h
    cases h
  · rw [hparse] at h
    obtain ⟨rfl, hothers⟩ := Prod.mk.inj h
    obtain ⟨p, opens, hp, htaken, hended⟩ := parseNext_sound hparse
    rw [TokenStream.pending_eq_of_view_eq hview] at htaken
    exact ⟨p, opens, expr, _, s', hp, htaken, hended, rfl, Prod.ext rfl hothers⟩

theorem readStream_of_greedy {p more : List Token} {expr : Expr} {opens : Set Kind}
    (hp : Greedy parsing .expr p expr opens) (hended : Ended opens more)
    (hpending : s.pending = p ++ more) (hkind : ∀ token ∈ p.head?, token.kind ≠ .eof)
    (round : Token) (rounds : List Token) :
    ∃ s', s'.view = (more, s.feed.ending, s.source) ∧
      readStream parsing (round :: rounds) s =
        (expr :: (readStream parsing rounds s').1, (readStream parsing rounds s').2) := by
  obtain ⟨token, p, rfl, -⟩ := hp.begins
  obtain ⟨s₁, hview, hread⟩ := readStream_of_cons hpending (hkind token rfl) round
  obtain ⟨_, htakes⟩ := parseNext_complete hp hended
  obtain ⟨s', hparse, hview'⟩ :=
    htakes s₁ ((TokenStream.pending_eq_of_view_eq hview).trans hpending)
  simp only [TokenStream.view, Prod.mk.injEq] at hview
  rw [hread, hparse]
  exact ⟨s', by rw [hview', hview.2.1, hview.2.2], rfl⟩

/-- Tokens that are read as the expressions, one phrase after the other, before `last`. -/
inductive Phrases (parsing : Nat) (last : Token) : List Token → List Expr → Prop
  | nil : Phrases parsing last [] []
  | cons {p tokens expr exprs opens} (hfirst : Greedy parsing .expr p expr opens)
      (hended : Ended opens (tokens ++ [last])) (hkind : ∀ token ∈ p.head?, token.kind ≠ .eof)
      (hrest : Phrases parsing last tokens exprs) :
      Phrases parsing last (p ++ tokens) (expr :: exprs)

theorem Phrases.apart {last : Token} {tokens : List Token} {exprs : List Expr}
    (h : Phrases parsing last tokens exprs) : Apart tokens := by
  induction h with
  | nil => trivial
  | cons hfirst _ _ _ ih => exact hfirst.apart.append ih

/-- A stream that is read to its end holds phrases and then the end of the source. -/
theorem exists_phrases_of_readStream_eq {exprs : List Expr}
    (h : readStream parsing rounds s = (exprs, none)) (hrounds : s.pending.length ≤ rounds.length) :
    ∃ tokens last following, s.pending = tokens ++ last :: following ∧ last.kind = .eof ∧
      Phrases parsing last tokens exprs := by
  induction rounds generalizing s exprs with
  | nil =>
    rw [readStream_of_nil (List.length_eq_zero_iff.1 (Nat.le_zero.1 hrounds))] at h
    cases h
  | cons round rounds ih =>
    cases hpending : s.pending with
    | nil =>
      rw [readStream_of_nil hpending] at h
      cases h
    | cons token rest =>
      by_cases hkind : token.kind = .eof
      · rw [readStream_of_eof hpending hkind] at h
        cases h
        exact ⟨[], token, rest, rfl, hkind, .nil⟩
      · obtain ⟨p, opens, expr, others, s₁, hp, htaken, hended, rfl, hothers⟩ :=
          exists_of_readStream_eq h hpending hkind
        obtain ⟨first, p, rfl, -⟩ := hp.begins
        obtain rfl : token = first := by simpa [hpending] using congrArg List.head? htaken
        have hlength : s₁.pending.length ≤ rounds.length := by
          rw [htaken] at hrounds
          simp only [List.length_cons, List.length_append] at hrounds
          omega
        obtain ⟨tokens, last, following, hpending₁, hlast, hphrases⟩ := ih hothers hlength
        refine ⟨token :: p ++ tokens, last, following, ?_, hlast, ?_⟩
        · rw [← hpending, htaken, hpending₁, List.append_assoc]
        · rw [hpending₁] at hended
          exact .cons hp hended.of_append (by simpa using hkind) hphrases

/-- Before a boundary the same expressions are read as before the end of the source, and then what
comes after them. -/
theorem Phrases.readStream_eq {last : Token} {tokens more : List Token} {exprs : List Expr}
    (h : Phrases parsing last tokens exprs) (hmore : Begins boundaryKinds more)
    (hpending : s.pending = tokens ++ more) (hrounds : s.pending.length ≤ rounds.length) :
    ∃ s' rounds', s'.view = (more, s.feed.ending, s.source) ∧ more.length ≤ rounds'.length ∧
      readStream parsing rounds s =
        (exprs ++ (readStream parsing rounds' s').1, (readStream parsing rounds' s').2) := by
  induction h generalizing s rounds with
  | nil =>
    rw [List.nil_append] at hpending
    exact ⟨s, rounds, by rw [TokenStream.view, hpending], hpending ▸ hrounds, rfl⟩
  | @cons p tokens expr exprs opens hfirst hended hkind _ ih =>
    obtain ⟨token, q, rfl, -⟩ := hfirst.begins
    cases rounds with
    | nil => simp [hpending] at hrounds
    | cons round rounds =>
      rw [List.append_assoc] at hpending
      obtain ⟨s₁, hview, hread⟩ := readStream_of_greedy hfirst
        (hfirst.ended_boundary hended hmore) hpending hkind round rounds
      simp only [TokenStream.view, Prod.mk.injEq] at hview
      have hlength : s₁.pending.length ≤ rounds.length := by
        rw [hpending] at hrounds
        rw [hview.1]
        simp only [List.length_cons, List.length_append] at hrounds ⊢
        omega
      obtain ⟨s', rounds', hview', hrounds', hreads⟩ := ih hview.1 hlength
      refine ⟨s', rounds', by rw [hview', hview.2.1, hview.2.2], hrounds', ?_⟩
      rw [hread, hreads, List.cons_append]

theorem readStream_moved_of_nil {place : Nat → Nat} {source : String} {s' : TokenStream}
    (hmoved : Moved place source s s') (h : s.pending = []) (rounds' : List Token) :
    readStream parsing rounds' s' =
      ((readStream parsing rounds s).1,
        (readStream parsing rounds s).2.map (Fault.placed place source)) := by
  have h' : s'.pending = [] := by rw [hmoved.pending_eq, h, List.map_nil]
  rw [readStream_of_nil h, readStream_of_nil h', hmoved.ending_eq, moved_getD_exhausted]
  rfl

/-- The same expressions are read wherever the tokens stand. -/
theorem readStream_moved {place : Nat → Nat} {source : String} {s' : TokenStream}
    {rounds' : List Token} (hmoved : Moved place source s s')
    (hrounds : s.pending.length ≤ rounds.length) (hrounds' : s.pending.length ≤ rounds'.length) :
    readStream parsing rounds' s' =
      ((readStream parsing rounds s).1,
        (readStream parsing rounds s).2.map (Fault.placed place source)) := by
  induction rounds generalizing s s' rounds' with
  | nil =>
    exact readStream_moved_of_nil hmoved (List.length_eq_zero_iff.1 (Nat.le_zero.1 hrounds)) _
  | cons round rounds ih =>
    cases hpending : s.pending with
    | nil => exact readStream_moved_of_nil hmoved hpending _
    | cons token rest =>
      have hpending' : s'.pending = token.placed place :: rest.map (Token.placed place) := by
        rw [hmoved.pending_eq, hpending, List.map_cons]
      by_cases hkind : token.kind = .eof
      · rw [readStream_of_eof hpending hkind, readStream_of_eof hpending' hkind]
        rfl
      cases rounds' with
      | nil => simp [hpending] at hrounds'
      | cons round' rounds' =>
        obtain ⟨s₁, hview, hread⟩ := readStream_of_cons hpending hkind round
        obtain ⟨s₁', hview', hread'⟩ := readStream_of_cons hpending' hkind round'
        rw [hread, hread']
        have hmoved₁ : Moved place source s₁ s₁' := by
          simp only [TokenStream.view, Prod.mk.injEq] at hview
          rw [Moved, hview', hview.1, hview.2.1]
          exact hmoved
        have houtcome := alike_parseNext parsing s₁ s₁' hmoved₁
        generalize hparse : outcome (parseNext parsing) s₁ = first at houtcome ⊢
        generalize outcome (parseNext parsing) s₁' = first' at houtcome ⊢
        cases houtcome with
        | error => rfl
        | @ok result _ s₂ s₂' hresult hmoved₂ =>
          obtain ⟨expr, _⟩ := result
          obtain rfl := hresult
          obtain ⟨p, opens, hp, htaken, -⟩ := parseNext_sound hparse
          obtain ⟨first, p, rfl, -⟩ := hp.begins
          rw [← TokenStream.pending_eq_of_view_eq hview, htaken] at hrounds hrounds'
          simp only [List.length_cons, List.length_append] at hrounds hrounds'
          dsimp only
          rw [ih hmoved₂ (by omega) (by omega)]

/-! ### Texts -/

/-- The end of the source is the last token, and comes once. -/
theorem eq_of_append_eof {tokens tokens' following : List Token} {last last' : Token}
    (h : tokens ++ [last] = tokens' ++ last' :: following) (hlast' : last'.kind = .eof)
    (htokens : ∀ token ∈ tokens, token.kind ≠ .eof) : tokens' = tokens := by
  rcases List.append_eq_append_iff.1 h with ⟨added, rfl, hadded⟩ | ⟨added, rfl, hadded⟩
  · cases added with
    | nil => simp
    | cons first added => simpa using congrArg List.length hadded
  · cases added with
    | nil => simp
    | cons first added =>
      obtain ⟨rfl, -⟩ := List.cons.inj hadded
      exact absurd hlast' (htokens last' (by simp))

theorem tokenize_of_pending {text : String} {tokens following : List Token} {last : Token}
    (h : (TokenStream.ofText text).pending = tokens ++ last :: following)
    (hlast : last.kind = .eof) :
    ∃ last, Lexer.tokenize text = { tokens := tokens ++ [last], ending := none } ∧
      last.kind = .eof := by
  rcases tokensFrom_shape text 0 text.toList with ⟨tokens', last', hfeed, hlast', hne⟩ | ⟨-, hne⟩
  · have hsame : tokens' ++ [last'] = tokens ++ last :: following := by
      rw [← h]
      exact (congrArg Feed.tokens hfeed).symm
    rw [eq_of_append_eof hsame hlast hne]
    exact ⟨last', hfeed, hlast'⟩
  · have hmem : last ∈ (TokenStream.ofText text).pending := by simp [h]
    exact absurd hlast (hne last hmem)

/-- A text that is read to its end, with a line after it: its expressions, and those of the line as
if it stood alone, but for the places that a fault names. -/
theorem expressions_append {text line : String} {exprs : List Expr} {lexer : Lexer}
    (h : expressions parsing text = (exprs, none))
    (hnext : (Lexer.ofText line).next = (.ok token, lexer)) (hkind : token.kind ∈ boundaryKinds) :
    expressions parsing (text ++ "\n" ++ line) =
      (exprs ++ (expressions parsing line).1,
        (expressions parsing line).2.map
          (Fault.moved (text.length + 1) (text ++ "\n" ++ line))) := by
  obtain ⟨tokens, last, following, hpending, hlast, hphrases⟩ :=
    exists_phrases_of_readStream_eq h (Nat.le_refl _)
  obtain ⟨last, htext, hlast⟩ := tokenize_of_pending hpending hlast
  have hwhole := tokenize_append hlast htext hphrases.apart.parted line
  obtain ⟨others, hothers⟩ := tokenize_of_next hnext
  have hpending' : (TokenStream.ofText (text ++ "\n" ++ line)).pending = tokens ++
      (Lexer.tokenize line).tokens.map (Token.moved (text.length + 1)) :=
    congrArg Feed.tokens hwhole
  have hmore : Begins boundaryKinds
      ((Lexer.tokenize line).tokens.map (Token.moved (text.length + 1))) := by
    rw [hothers]
    exact begins_cons.2 hkind
  obtain ⟨s, rounds, hview, hrounds, hread⟩ :=
    hphrases.readStream_eq hmore hpending' (Nat.le_refl _)
  have hmoved :
      Moved (· + (text.length + 1)) (text ++ "\n" ++ line) (TokenStream.ofText line) s := by
    rw [Moved, ← Fault.moved_eq_placed]
    exact hview.trans (congrArg (fun feed => (_, feed.ending, _)) hwhole)
  rw [List.length_map] at hrounds
  rw [expressions, hread, readStream_moved hmoved (Nat.le_refl _) hrounds, Fault.moved_eq_placed]
  rfl

end Program

end LetLang
