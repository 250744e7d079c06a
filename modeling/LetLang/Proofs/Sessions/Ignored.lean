import LetLang.Proofs.Locations
import LetLang.Proofs.Shells.Replies
/-!
# Ignored sources

A session does not queue a source of blanks. Between tokens only four of the blanks may stand, so
that a blank source either has no tokens but its end or breaks off at its first other blank: in the
first case ignoring it comes to the same as interpreting it, in the second the error is passed over.
-/
namespace LetLang

open Lexer

/-! ### The tokens of a blank source -/

namespace Lexer

theorem gap_of_spaces {gap : List Char} (h : ∀ c ∈ gap, isSpace c = true) (rest : List Char) :
    Gap gap rest := by
  cases gap with
  | nil => exact .nil
  | cons c gap =>
    rw [← List.append_nil (c :: gap)]
    exact .cons (.spaces (List.cons_ne_nil c gap) h) .nil

theorem tokenize_of_spaces {text : String} (h : ∀ c ∈ text.toList, isSpace c = true) :
    tokenize text = { tokens := [Token.eof text.length], ending := none } := by
  have hsplits : Splits 0 text.toList [Token.eof (0 + text.toList.length)] :=
    .eof (gap_of_spaces h [])
  rw [tokenize, hsplits.tokensFrom_eq text, Nat.zero_add, String.length_toList]

/-- No text of a kind begins with a blank. -/
theorem not_prefix_of_isBlank {kind : Kind} {text rest : List Char} {c : Char}
    (hc : Text.isBlank c = true) (h : text ∈ kind.language) : ¬ text <+: c :: rest := by
  rintro ⟨more, hbegins⟩
  obtain ⟨hne, hvisible⟩ := Kind.visible_of_mem_language h
  obtain ⟨d, text, rfl⟩ := List.exists_cons_of_ne_nil hne
  obtain ⟨rfl, -⟩ := List.cons.inj hbegins
  rw [isBlank_of_visible (hvisible d (List.mem_cons_self ..))] at hc
  cases hc

theorem scan_of_isBlank {c : Char} (hc : Text.isBlank c = true) (source : String) (pos : Nat)
    (rest : List Char) :
    scan source pos (c :: rest) = .error (.language (.unexpectedCharacter source pos c)) := by
  cases hscan : scan source pos (c :: rest) with
  | ok token =>
    have hkind : token.kind ≠ .eof := fun heof => List.cons_ne_nil c rest (scan_eof hscan heof)
    have hmunched := (munched_of_scan hscan hkind).1
    exact absurd hmunched.begins (not_prefix_of_isBlank hc hmunched.mem)
  | error fault =>
    rcases scan_error hscan with ⟨d, others, heq, rfl, -⟩ | ⟨digits, others, heq, -, hmunched, -⟩
    · obtain ⟨rfl, -⟩ := List.cons.inj heq
      rfl
    · rw [← heq] at hmunched
      exact absurd hmunched.begins (not_prefix_of_isBlank hc hmunched.mem)

theorem not_startsItem_of_isBlank {c : Char} (hc : Text.isBlank c = true)
    (hspace : isSpace c = false) (rest : List Char) : ¬ StartsItem (c :: rest) := by
  rintro ⟨item, others, hitem, heq⟩
  cases hitem with
  | spaces hne hspaces =>
    obtain ⟨d, item, rfl⟩ := List.exists_cons_of_ne_nil hne
    obtain ⟨rfl, -⟩ := List.cons.inj heq
    rw [hspaces d (List.mem_cons_self ..)] at hspace
    cases hspace
  | line | block =>
    obtain ⟨rfl, -⟩ := List.cons.inj heq
    cases hc

theorem exists_first_isSpace_eq_false {cs : List Char} (h : ¬ ∀ c ∈ cs, isSpace c = true) :
    ∃ before c after, cs = before ++ c :: after ∧ (∀ d ∈ before, isSpace d = true) ∧
      isSpace c = false := by
  cases hfind : cs.find? (!isSpace ·) with
  | none =>
    refine absurd ?_ h
    simpa using hfind
  | some c =>
    obtain ⟨hc, before, after, hcs, hbefore⟩ := List.find?_eq_some_iff_append.1 hfind
    exact ⟨before, c, after, hcs, by simpa using hbefore, by simpa using hc⟩

/-- A text breaks off at a blank that may not stand between tokens, if only spaces come before. -/
theorem tokenize_of_isBlank {text : String} {before after : List Char} {c : Char}
    (htext : text.toList = before ++ c :: after) (hbefore : ∀ d ∈ before, isSpace d = true)
    (hc : Text.isBlank c = true) (hspace : isSpace c = false) :
    tokenize text =
      { tokens := []
        ending := some (.language (.unexpectedCharacter text before.length c)) } := by
  have hwidth : gapWidth (before ++ c :: after) = before.length :=
    (gap_of_spaces hbefore (c :: after)).gapWidth_append (not_startsItem_of_isBlank hc hspace after)
  rw [tokenize, htext]
  apply tokensFrom_of_error
  rw [drop_gapWidth hwidth, hwidth, Nat.zero_add]
  exact scan_of_isBlank hc text before.length after

end Lexer

/-! ### The course of a blank source -/

namespace Program

theorem course_of_spaces (limits : Limits) (scope : ScopeId) {source : String}
    (h : ∀ c ∈ source.toList, isSpace c = true) (store : Store) :
    course limits scope source store = { values := [], fault := none, store } := by
  have hpending : (TokenStream.ofText source).pending = [Token.eof source.length] :=
    congrArg Feed.tokens (tokenize_of_spaces h)
  have hread : expressions limits.parsing source = ([], none) := readStream_of_eof hpending rfl
  rw [course, hread]
  rfl

theorem course_of_isBlank (limits : Limits) (scope : ScopeId) {source : String}
    {before after : List Char} {c : Char} (hsource : source.toList = before ++ c :: after)
    (hbefore : ∀ d ∈ before, isSpace d = true) (hc : Text.isBlank c = true)
    (hspace : isSpace c = false) (store : Store) :
    course limits scope source store =
      { values := []
        fault := some (.language (.unexpectedCharacter source before.length c))
        store } := by
  have hfeed := tokenize_of_isBlank hsource hbefore hc hspace
  have hpending : (TokenStream.ofText source).pending = [] := congrArg Feed.tokens hfeed
  have hending : (TokenStream.ofText source).feed.ending = _ := congrArg Feed.ending hfeed
  have hread : expressions limits.parsing source =
      ([], some (.language (.unexpectedCharacter source before.length c))) := by
    rw [expressions, readStream_of_nil hpending, hending]
    rfl
  rw [course, hread]
  rfl

theorem outcome_interpret_of_isBlank (limits : Limits) (scope : ScopeId) {source : String}
    {before after : List Char} {c : Char} (hsource : source.toList = before ++ c :: after)
    (hbefore : ∀ d ∈ before, isSpace d = true) (hc : Text.isBlank c = true)
    (hspace : isSpace c = false) (store : Store) :
    outcome (interpret limits source scope) store =
      (.error (.language (.unexpectedCharacter source before.length c)), store) := by
  rw [outcome_interpret, course_of_isBlank limits scope hsource hbefore hc hspace]
  rfl

/-- A blank source means nothing exactly if it has spaces only. -/
theorem outcome_interpret_eq_nothing_iff (limits : Limits) (scope : ScopeId) {source : String}
    (hblank : Text.allBlank source = true) (store : Store) :
    outcome (interpret limits source scope) store = (.ok [], store) ↔
      ∀ c ∈ source.toList, isSpace c = true := by
  constructor
  · intro hok
    by_contra hspaces
    obtain ⟨before, c, after, hsource, hbefore, hspace⟩ := exists_first_isSpace_eq_false hspaces
    have hc : Text.isBlank c = true := List.all_eq_true.1 hblank c (by simp [hsource])
    rw [outcome_interpret_of_isBlank limits scope hsource hbefore hc hspace] at hok
    cases hok
  · intro hspaces
    rw [outcome_interpret, course_of_spaces limits scope hspaces]
    rfl

end Program

/-! ### Ignoring and interpreting -/

namespace Session

variable {limits : Limits} {session : Session} {source : String}

theorem queue_add_eq_nil_iff (hqueue : session.queue = []) (source : String) (number : LineNumber) :
    (session.add source number).queue = [] ↔ Text.allBlank source = true := by
  rw [add]
  split
  · next hblank => simp [hqueue, hblank]
  · next hblank => simp [hblank]

theorem run_add_of_blank (limits : Limits) (hqueue : session.queue = [])
    (hblank : Text.allBlank source = true) (number : LineNumber) :
    session.add source number = session ∧
      (session.add source number).run limits = { session, printed := "", fault := none } := by
  have hadd : session.add source number = session := by rw [add, if_pos hblank]
  have hsession : { session with queue := [] } = session := by rw [← hqueue]
  refine ⟨hadd, ?_⟩
  rw [hadd, run, hqueue, runSources, hsession]

/-- A run of one source follows the course of its text, unless the source is blank and its text
breaks off. -/
theorem run_add_follows_iff (limits : Limits) (hqueue : session.queue = []) (source : String)
    (number : LineNumber) :
    session.Follows ((session.add source number).run limits)
        (Program.course limits session.root source session.store) ↔
      (Text.allBlank source = true → ∀ c ∈ source.toList, isSpace c = true) := by
  have hfollows := session.run_add_follows limits hqueue source number
  constructor
  · intro hcourse hblank
    rw [(run_add_of_blank limits hqueue hblank number).2] at hcourse
    have hfault : (Program.course limits session.root source session.store).fault = none :=
      hcourse.fault_eq.symm
    have hvalues : session.results = session.results ++ _ := congrArg results hcourse.session_eq
    have hstore : session.store = _ := hcourse.store_eq
    rw [List.self_eq_append_right] at hvalues
    rw [← Program.outcome_interpret_eq_nothing_iff limits session.root hblank session.store,
      Program.outcome_interpret, Course.result, hfault, hvalues, ← hstore]
  · intro hmeans
    rw [Program.inputCourse] at hfollows
    cases hblank : Text.allBlank source with
    | true =>
      rw [hblank, if_pos rfl] at hfollows
      rwa [Program.course_of_spaces limits session.root (hmeans hblank)]
    | false =>
      rwa [hblank, if_neg Bool.false_ne_true] at hfollows

end Session

/-- A session that is given a source and run does what interpreting the source in the scope of the
session does: it is left with the same store, with the same values, or those before the fault, as
new results, and with the same fault. Only a blank source with a blank that may not stand between
tokens is an exception. A blank source is not queued, and running then changes nothing; interpreting
it gives no values if it has spaces only, and otherwise fails at its first other blank. -/
theorem run_add_agrees_with_interpret (limits : Limits) {session : Session}
    (hqueue : session.queue = []) (source : String) (number : LineNumber) :
    let added := session.add source number
    let run := added.run limits
    let interpreted := outcome (Program.interpret limits source session.root) session.store
    let course := Program.course limits session.root source session.store
    interpreted = (course.result, course.store) ∧
      (session.Follows run course ↔
        (Text.allBlank source = true → ∀ c ∈ source.toList, isSpace c = true)) ∧
      (added.queue = [] ↔ Text.allBlank source = true) ∧
      (Text.allBlank source = true →
        added = session ∧ run = { session, printed := "", fault := none } ∧
        (interpreted = (.ok [], session.store) ↔ ∀ c ∈ source.toList, isSpace c = true) ∧
        ∀ before c after, source.toList = before ++ c :: after →
          (∀ d ∈ before, isSpace d = true) → isSpace c = false →
          interpreted =
            (.error (.language (.unexpectedCharacter source before.length c)), session.store)) := by
  intro added run interpreted course
  refine ⟨Program.outcome_interpret limits source session.root session.store,
    Session.run_add_follows_iff limits hqueue source number,
    Session.queue_add_eq_nil_iff hqueue source number, ?_⟩
  intro hblank
  obtain ⟨hadd, hrun⟩ := Session.run_add_of_blank limits hqueue hblank number
  refine ⟨hadd, hrun,
    Program.outcome_interpret_eq_nothing_iff limits session.root hblank session.store, ?_⟩
  intro before c after hsource hbefore hspace
  have hc : Text.isBlank c = true := List.all_eq_true.1 hblank c (by simp [hsource])
  exact Program.outcome_interpret_of_isBlank limits session.root hsource hbefore hc hspace
    session.store

theorem run_add_agrees_with_interpret_nope :
    let session := Session.new (.new false) typedInput false
    let run := (session.add "let a = 1 nope 3" 1).run ⟨99, 99⟩
    session.queue = [] ∧ Text.allBlank "let a = 1 nope 3" = false ∧
      run.fault = some (.language (.undefinedIdentifier "nope")) ∧
      run.session.results = [.int 1] := by
  intro session run
  have hqueue : session.queue = [] := rfl
  have hblank : Text.allBlank "let a = 1 nope 3" = false := by decide +kernel
  obtain ⟨-, hfollows, -⟩ := run_add_agrees_with_interpret ⟨99, 99⟩ hqueue "let a = 1 nope 3" 1
  have hsame := hfollows.2 fun hall => absurd (hall.symm.trans hblank) (by decide)
  refine ⟨hqueue, hblank, ?_, ?_⟩
  · rw [show run.fault = _ from hsame.fault_eq]
    decide +kernel
  · rw [show run.session = _ from hsame.session_eq]
    decide +kernel

/-- A source that is a no-break space is dropped, though interpreting it fails. -/
theorem no_break_space_is_dropped :
    let session := Session.new (.new false) typedInput false
    let run := (session.add "\u00a0" 1).run ⟨99, 99⟩
    session.queue = [] ∧ (session.add "\u00a0" 1).queue = [] ∧ run.fault = none ∧
      outcome (Program.interpret ⟨99, 99⟩ "\u00a0" session.root) session.store =
        (.error (.language (.unexpectedCharacter "\u00a0" 0 '\u00a0')), session.store) := by
  intro session run
  have hblank : Text.allBlank "\u00a0" = true := by decide
  obtain ⟨hadd, hrun⟩ := session.run_add_of_blank ⟨99, 99⟩ rfl hblank 1
  refine ⟨rfl, by rw [hadd]; rfl, by rw [show run = _ from hrun], ?_⟩
  have hsource : "\u00a0".toList = [] ++ '\u00a0' :: [] := rfl
  exact Program.outcome_interpret_of_isBlank ⟨99, 99⟩ session.root hsource (by simp) (by decide)
    (by decide) session.store

end LetLang
