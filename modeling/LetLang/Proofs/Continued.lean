import LetLang.Proofs.Files
import LetLang.Proofs.Lexing.Respaced
import LetLang.Proofs.Locations
/-!
# Continued lines

Preparing the lines of a file comes to deleting the marks at their ends: what else it changes are
spaces next to line feeds, in code and in comments alike. The tokens stay on their lines, and a line
of the source is the prepared line of the file.
-/
namespace LetLang

open Text Lexer

namespace Continuation

/-! ### Marks -/

/-- The line is some text, the mark, and blanks after it. -/
structure Marked (line body tail : List Char) : Prop where
  line_eq : line = body ++ mark :: tail
  blank : ∀ c ∈ tail, isBlank c = true

/-- The line without the mark at its end, if it has one. -/
def unmarked (line : List Char) : List Char :=
  let trimmed := stripRight line
  if trimmed.getLast? = some mark then trimmed.dropLast ++ line.drop trimmed.length else line

/-- The beginning of a prepared line. -/
def led (continuing : Bool) (text : List Char) : List Char :=
  if continuing then ' ' :: stripLeft text else text

variable {line body tail : List Char}

theorem exists_tail (cs : List Char) :
    ∃ tail, cs = stripRight cs ++ tail ∧ ∀ c ∈ tail, isBlank c = true := by
  refine ⟨(cs.reverse.takeWhile isBlank).reverse, ?_, ?_⟩
  · rw [stripRight, dropWhileRight, ← List.reverse_append, List.takeWhile_append_dropWhile,
      List.reverse_reverse]
  · intro c hc
    exact List.mem_takeWhile_imp (List.mem_reverse.1 hc)

theorem Marked.stripRight_eq (h : Marked line body tail) : stripRight line = body ++ [mark] := by
  have hblank : ∀ c ∈ tail.reverse, isBlank c = true :=
    fun c hc => h.blank c (List.mem_reverse.1 hc)
  have hmark : isBlank mark = false := by decide
  rw [h.line_eq, stripRight, dropWhileRight, List.reverse_append, List.reverse_cons,
    List.append_assoc, List.dropWhile_append_of_pos hblank]
  simp [hmark]

/-- A line is marked exactly if it ends with the mark when stripped. -/
theorem getLast?_stripRight_iff :
    (stripRight line).getLast? = some mark ↔ ∃ body tail, Marked line body tail := by
  constructor
  · intro hlast
    obtain ⟨tail, hline, hblank⟩ := exists_tail line
    obtain ⟨body, hbody⟩ := List.getLast?_eq_some_iff.1 hlast
    refine ⟨body, tail, ?_, hblank⟩
    rw [hline, hbody]
    simp
  · rintro ⟨body, tail, h⟩
    rw [h.stripRight_eq, List.getLast?_concat]

theorem Marked.unmarked_eq (h : Marked line body tail) : unmarked line = body ++ tail := by
  have hlast := getLast?_stripRight_iff.2 ⟨body, tail, h⟩
  have hline : line = (body ++ [mark]) ++ tail := by
    rw [h.line_eq, List.append_assoc, List.singleton_append]
  rw [unmarked, if_pos hlast, h.stripRight_eq, List.dropLast_concat, hline, List.drop_left]

theorem unmarked_of_not (h : ¬ ∃ body tail, Marked line body tail) : unmarked line = line :=
  if_neg fun hlast => h (getLast?_stripRight_iff.1 hlast)

/-! ### Prepared lines -/

theorem stripLeft_marked (body tail : List Char) :
    stripLeft (body ++ mark :: tail) = stripLeft body ++ mark :: tail := by
  have hmark : isBlank mark = false := by decide
  rw [stripLeft, stripLeft, List.dropWhile_append]
  split
  · next hnil =>
    rw [List.isEmpty_iff.1 hnil]
    simp [hmark]
  · rfl

theorem Marked.led (h : Marked line body tail) (continuing : Bool) :
    Marked (Continuation.led continuing line) (Continuation.led continuing body) tail := by
  refine ⟨?_, h.blank⟩
  cases continuing with
  | false => exact h.line_eq
  | true =>
    rw [h.line_eq]
    exact congrArg (' ' :: ·) (stripLeft_marked body tail)

theorem exists_marked_of_led {continuing : Bool} (h : Marked (led continuing line) body tail) :
    ∃ body, Marked line body tail := by
  cases continuing with
  | false => exact ⟨body, h⟩
  | true =>
    have hline : ' ' :: stripLeft line = body ++ mark :: tail := h.line_eq
    cases body with
    | nil => cases hline
    | cons c body =>
      have hrest : stripLeft line = body ++ mark :: tail := (List.cons.inj hline).2
      refine ⟨line.takeWhile isBlank ++ body, ?_, h.blank⟩
      rw [List.append_assoc, ← hrest, stripLeft, List.takeWhile_append_dropWhile]

/-- The only blanks of the line are spaces and tabs. -/
def Plain (line : List Char) : Prop :=
  ∀ c ∈ line, isBlank c = true → c = ' ' ∨ c = '\t'

-- By the characters of the line, which are few, and not by all that there are.
instance (line : List Char) : Decidable (Plain line) :=
  List.decidableBAll (fun c => isBlank c = true → c = ' ' ∨ c = '\t') line

theorem Plain.notMem (h : Plain line) : '\n' ∉ line ∧ '\r' ∉ line :=
  ⟨fun hmem => absurd (h _ hmem) (by decide), fun hmem => absurd (h _ hmem) (by decide)⟩

theorem Plain.prepare_eq (h : Plain line) (continuing : Bool) :
    prepare line continuing =
      let trimmed := stripRight (led continuing line)
      if trimmed.getLast? = some mark then (trimmed.dropLast, true)
      else (led continuing line, false) := by
  have hbare : dropWhileRight (fun c => c = '\r' || c = '\n') line = line := by
    have hkeep : line.reverse.dropWhile (fun c => c = '\r' || c = '\n') = line.reverse := by
      cases hreverse : line.reverse with
      | nil => rfl
      | cons c rest =>
        have hmem : c ∈ line := List.mem_reverse.1 (by simp [hreverse])
        have hreturn : c ≠ '\r' := fun heq => h.notMem.2 (heq ▸ hmem)
        have hfeed : c ≠ '\n' := fun heq => h.notMem.1 (heq ▸ hmem)
        simp [hreturn, hfeed]
    rw [dropWhileRight, hkeep, List.reverse_reverse]
  rw [prepare, hbare]
  rfl

theorem Marked.prepare_eq (h : Marked line body tail) (hplain : Plain line) (continuing : Bool) :
    prepare line continuing = (Continuation.led continuing body, true) := by
  have hled := h.led continuing
  rw [hplain.prepare_eq]
  dsimp only
  rw [if_pos (getLast?_stripRight_iff.2 ⟨_, _, hled⟩), hled.stripRight_eq, List.dropLast_concat]

theorem prepare_of_not (h : ¬ ∃ body tail, Marked line body tail) (hplain : Plain line)
    (continuing : Bool) : prepare line continuing = (led continuing line, false) := by
  rw [hplain.prepare_eq]
  refine if_neg fun hlast => h ?_
  obtain ⟨body, tail, hled⟩ := getLast?_stripRight_iff.1 hlast
  obtain ⟨body, hline⟩ := exists_marked_of_led hled
  exact ⟨body, tail, hline⟩

/-- What becomes of one line: a text and, if it was marked, blanks after it stay when the mark is
deleted; preparing it keeps the text, up to its beginning, and drops the blanks. -/
theorem exists_led (h : Plain line) :
    ∃ text tail continued, Plain text ∧ (∀ c ∈ tail, c = ' ' ∨ c = '\t') ∧
      (continued = false → tail = []) ∧ unmarked line = text ++ tail ∧
      ∀ continuing, prepare line continuing = (led continuing text, continued) := by
  by_cases hmarked : ∃ body tail, Marked line body tail
  · obtain ⟨body, tail, hmarked⟩ := hmarked
    have hbody : Plain body := fun c hc => h c (by simp [hmarked.line_eq, hc])
    have htail : ∀ c ∈ tail, c = ' ' ∨ c = '\t' := fun c hc =>
      h c (by simp [hmarked.line_eq, hc]) (hmarked.blank c hc)
    exact ⟨body, tail, true, hbody, htail, by simp, hmarked.unmarked_eq, hmarked.prepare_eq h⟩
  · refine ⟨line, [], false, h, by simp, fun _ => rfl, ?_, prepare_of_not hmarked h⟩
    rw [unmarked_of_not hmarked, List.append_nil]

/-! ### Prepared texts -/

/-- A line feed with blanks around it, in a text whose only blanks are spaces and tabs. -/
theorem spaceRun_break {before after : List Char} (hbefore : ∀ c ∈ before, c = ' ' ∨ c = '\t')
    (hafter : ∀ c ∈ after, c = ' ' ∨ c = '\t') :
    SpaceRun (before ++ '\n' :: after) ∧ (before ++ '\n' :: after).count '\n' = 1 := by
  have hbreak : ∀ {text : List Char}, (∀ c ∈ text, c = ' ' ∨ c = '\t') → '\n' ∉ text :=
    fun h hmem => absurd (h _ hmem) (by decide)
  refine ⟨⟨by simp, ?_⟩, ?_⟩
  · intro c hc
    have hcases : (c = ' ' ∨ c = '\t') ∨ c = '\n' := by
      rcases List.mem_append.1 hc with hmem | hmem
      · exact .inl (hbefore c hmem)
      · rcases List.mem_cons.1 hmem with rfl | hmem
        · exact .inr rfl
        · exact .inl (hafter c hmem)
    rcases hcases with (rfl | rfl) | rfl <;> decide
  · rw [List.count_append, List.count_cons_self, List.count_eq_zero.2 (hbreak hbefore),
      List.count_eq_zero.2 (hbreak hafter)]

theorem respaced_led {text rest rest' : List Char} (htext : Plain text)
    (htail : ∀ c ∈ tail, c = ' ' ∨ c = '\t') (h : Respaced rest rest') :
    Respaced ('\n' :: (led true text ++ rest)) (tail ++ '\n' :: (text ++ rest')) := by
  have hlead : ∀ c ∈ text.takeWhile isBlank, c = ' ' ∨ c = '\t' := fun c hc =>
    htext c ((List.takeWhile_sublist _).mem hc) (List.mem_takeWhile_imp hc)
  have hspace : ∀ c ∈ [' '], c = ' ' ∨ c = '\t' := by simp
  obtain ⟨hrun, hcount⟩ := @spaceRun_break [] [' '] (by simp) hspace
  obtain ⟨hrun', hcount'⟩ := spaceRun_break htail hlead
  have hwhole := Respaced.run hrun hrun' (hcount.trans hcount'.symm)
    (h.append_left (stripLeft text))
  have htext' : tail ++ '\n' :: (text ++ rest') =
      (tail ++ '\n' :: text.takeWhile isBlank) ++ (stripLeft text ++ rest') := by
    rw [stripLeft, List.append_assoc, List.cons_append,
      ← List.append_assoc (text.takeWhile isBlank), List.takeWhile_append_dropWhile]
  rw [htext']
  exact hwhole

/-- Prepared lines and lines without their marks: the texts differ in spaces, also where the first
of them continues another line. -/
theorem respaced_prepareAll {lines : List (List Char)} (h : ∀ line ∈ lines, Plain line) :
    Respaced (joined (prepareAll false lines).1) (joined (lines.map unmarked)) ∧
      ∀ tail, (∀ c ∈ tail, c = ' ' ∨ c = '\t') →
        Respaced ('\n' :: joined (prepareAll true lines).1)
          (tail ++ '\n' :: joined (lines.map unmarked)) := by
  induction lines with
  | nil =>
    refine ⟨.nil, fun tail htail => ?_⟩
    have hrun := @spaceRun_break [] [] (by simp) (by simp)
    have hrun' := @spaceRun_break tail [] htail (by simp)
    have hwhole := Respaced.run hrun.1 hrun'.1 (hrun.2.trans hrun'.2.symm) .nil
    simpa [prepareAll] using hwhole
  | cons line lines ih =>
    rw [List.forall_mem_cons] at h
    obtain ⟨hfirst, hcontinued⟩ := ih h.2
    obtain ⟨text, tail, continued, htext, htail, hnone, hunmarked, hprepare⟩ := exists_led h.1
    have hprepared : ∀ continuing, joined (prepareAll continuing (line :: lines)).1 =
        led continuing text ++ '\n' :: joined (prepareAll continued lines).1 := by
      intro continuing
      rw [prepareAll, hprepare continuing, joined_cons]
    have hrest : Respaced ('\n' :: joined (prepareAll continued lines).1)
        (tail ++ '\n' :: joined (lines.map unmarked)) := by
      cases continued with
      | false =>
        rw [hnone rfl]
        exact .char '\n' hfirst
      | true => exact hcontinued tail htail
    rw [List.map_cons, joined_cons, hunmarked, List.append_assoc, hprepared, hprepared]
    exact ⟨hrest.append_left text, fun before hbefore => respaced_led htext hbefore hrest⟩

theorem getElem?_prepareAll (continuing : Bool) (lines : List (List Char)) (i : Nat) :
    (prepareAll continuing lines).1[i]? =
      lines[i]?.map fun line => (prepare line (prepareAll continuing (lines.take i)).2).1 := by
  induction lines generalizing continuing i with
  | nil => simp [prepareAll]
  | cons line lines ih =>
    cases i with
    | zero => simp [prepareAll]
    | succ i =>
      rw [prepareAll, List.getElem?_cons_succ, List.getElem?_cons_succ, List.take_succ_cons, ih]
      rfl

end Continuation

theorem heldLines_joined {lines : List (List Char)} (h : ∀ line ∈ lines, '\n' ∉ line) :
    heldLines (joined lines) = lines := by
  induction lines with
  | nil => rfl
  | cons line lines ih =>
    rw [List.forall_mem_cons] at h
    rw [joined_cons, heldLines_append h.1, ih h.2]

/-- A reporter that can warn can still do so when it knows a line whose number is a count. -/
theorem Reporter.canWarn_register {reporter : Reporter} (h : reporter.canWarn = true)
    (path : String) (line : Option String) {number : Option LineNumber}
    (hnumber : ∀ n ∈ number, n.Counted) : (reporter.register path line number).canWarn = true := by
  have hwritable : number.all LineNumber.writable = true := by
    rw [Option.all_eq_true]
    exact fun n hn => (hnumber n hn).writable
  rw [register, canWarn]
  rw [canWarn] at h
  cases htraceback : reporter.traceback with
  | nil => exact hwritable
  | cons entry rest =>
    rw [htraceback] at h
    rw [setEntry]
    by_cases hpath : entry.path = path
    · rw [if_pos hpath]
      exact hwritable
    · rw [if_neg hpath]
      exact h

/-- Loading a file queues its source, unless it has to warn with a number that cannot be written. -/
theorem Session.load_queues (colours : Bool) (session : Session) (text : List Char) :
    (∃ loaded printed, session.load colours text = .ok (loaded, printed) ∧
      loaded.queue = (session.add (Runner.fileSource text) 1).queue) ∨
    (∃ failed, session.load colours text = .error (.unwarnable, failed)) ∧
      session.reporter.canWarn = false := by
  rw [load, Runner.fileSource]
  rcases fileLines text with ⟨prepared, _ | _⟩
  · exact .inl ⟨_, _, rfl, rfl⟩
  · dsimp only
    rw [if_pos rfl]
    split
    · refine .inl ⟨_, _, rfl, ?_⟩
      rw [add, add]
      split <;> rfl
    · next hwarns =>
      refine .inr ⟨⟨_, rfl⟩, ?_⟩
      by_contra hcan
      apply hwarns
      exact Reporter.canWarn_register (by simpa using hcan) _ _
        (by simpa using LineNumber.counted_natCast prepared.length)

/-- A session on a file begins with the source of the file in its queue. -/
theorem Session.start_queues {files : Files} {path : String} {text : List Char}
    (h : Runner.Readable files path text) (colours : Bool) (reporter : Reporter)
    (typed showTree : Bool) :
    let start := Session.start colours files reporter path typed showTree
    (∃ session printed, start = .ok (session, printed) ∧
      session.queue =
        if allBlank (Runner.fileSource text) then [] else [(Runner.fileSource text, 1)]) ∨
    (∃ failed, start = .error (.unwarnable, failed)) ∧ reporter.canWarn = false := by
  intro start
  let known :=
    if typed then { reporter.registerFile path with fatal := false } else reporter.registerFile path
  have hstart : start = (Session.new known path showTree).load colours text :=
    h.start_eq colours reporter typed showTree
  have hknown : reporter.canWarn = true → known.canWarn = true := by
    intro hcan
    have hregistered : (reporter.registerFile path).canWarn = true :=
      Reporter.canWarn_register hcan path none (by simp)
    dsimp only [known]
    split <;> exact hregistered
  rw [hstart]
  rcases Session.load_queues colours (Session.new known path showTree) text with
    ⟨session, printed, hload, hqueue⟩ | ⟨hload, hcan⟩
  · refine .inl ⟨session, printed, hload, hqueue.trans ?_⟩
    rw [Session.add]
    split <;> rfl
  · refine .inr ⟨hload, ?_⟩
    by_contra hwarns
    have htrue : known.canWarn = true := hknown (by simpa using hwarns)
    cases htrue.symm.trans hcan

open Continuation

/-- The source of a file whose lines have no blanks but spaces and tabs is read as the same lines
would be if only the marks at their ends were deleted: the tokens have the same kinds, texts, values
and lines, and where the one fails at a character, the other fails at it on the same line. The lines
of the source are those of the file, each prepared after the lines before it. -/
theorem continued_lines_are_read_alike {lines : List (List Char)}
    (h : ∀ line ∈ lines, ∀ c ∈ line, isBlank c = true → c = ' ' ∨ c = '\t') :
    let source := Session.joinLines (prepareAll false lines).1
    (∀ (files : Files) (path : String) (text : List Char), Runner.Readable files path text →
      heldLines (unifyLineBreaks text) = lines →
      ∀ colours reporter typed showTree,
        let start := Session.start colours files reporter path typed showTree
        (∃ session printed, start = .ok (session, printed) ∧
          session.queue = if allBlank source then [] else [(source, 1)]) ∨
        (∃ failed, start = .error (.unwarnable, failed)) ∧ reporter.canWarn = false) ∧
      ReadAlike source (Session.joinLines (lines.map unmarked)) ∧
      (heldLines source.toList).length = lines.length ∧
      ∀ i : Nat, (heldLines source.toList)[i]? =
        lines[i]?.map fun line => (prepare line (prepareAll false (lines.take i)).2).1 := by
  intro source
  have hplain : ∀ line ∈ lines, Plain line := h
  have hbreaks :=
    notMem_prepareAll (by decide) (fun line hline => (hplain line hline).notMem.1) false
  have hheld : heldLines source.toList = (prepareAll false lines).1 := by
    rw [toList_joinLines, heldLines_joined hbreaks]
  refine ⟨?_, ?_, ?_, ?_⟩
  · intro files path text hreadable hlines colours reporter typed showTree
    have hsource : Runner.fileSource text = source := by
      rw [Runner.fileSource, Session.fileLines, hlines]
    rw [← hsource]
    exact Session.start_queues hreadable colours reporter typed showTree
  · apply Respaced.readAlike
    rw [toList_joinLines, toList_joinLines]
    exact (respaced_prepareAll hplain).1
  · rw [hheld, length_prepareAll]
  · intro i
    rw [hheld, getElem?_prepareAll]

/-- Marks in a block comment, in a line comment, and twice at the end of a line. -/
theorem continued_lines_are_read_alike_comments :
    let content := "let a = /* x \\ \n   y */ 1 // z \\\n\t+ 2 \\\\\n\n"
    let files : Files := fun path => if path = "a.toy" then some content.toUTF8.toList else none
    let lines := ["let a = /* x \\ ", "   y */ 1 // z \\", "\t+ 2 \\\\", ""].map String.toList
    let source := Session.joinLines (prepareAll false lines).1
    (∀ line ∈ lines, ∀ c ∈ line, isBlank c = true → c = ' ' ∨ c = '\t') ∧
      source = "let a = /* x \n y */ 1 // z \n + 2 \\\n \n" ∧
      Session.joinLines (lines.map unmarked) =
        "let a = /* x  \n   y */ 1 // z \n\t+ 2 \\\n\n" ∧
      (∃ session printed,
        Session.start false files (.new true) "a.toy" false false = .ok (session, printed) ∧
        session.queue = [(source, 1)]) ∧
      (tokenize source).tokens.map (seen source) =
        [(.letWord, "let", none, 0), (.ident, "a", some (.name "a"), 0), (.eq, "=", none, 0),
          (.int, "1", some (.number 1), 1), (.plus, "+", none, 2),
          (.int, "2", some (.number 2), 2)] ∧
      FailsAt source '\\' 2 := by
  intro content files lines source
  have hplain : ∀ line ∈ lines, Plain line := by decide +kernel
  have hreadable : Runner.Readable files "a.toy" content.toList :=
    ⟨by decide, by decide, content.toUTF8.toList, rfl, by decide +kernel⟩
  have hlines : heldLines (unifyLineBreaks content.toList) = lines := by decide +kernel
  have hunmarked : Session.joinLines (lines.map unmarked) =
      "let a = /* x  \n   y */ 1 // z \n\t+ 2 \\\n\n" := by
    decide +kernel
  have hblank : allBlank source = false := by decide +kernel
  obtain ⟨hqueue, halike, -⟩ := continued_lines_are_read_alike hplain
  have hstart := hqueue files "a.toy" content.toList hreadable hlines false (.new true) false false
  refine ⟨hplain, by decide +kernel, hunmarked, ?_, halike.tokens_eq.trans ?_,
    (halike.failsAt_iff '\\' 2).2 ?_⟩
  · rw [show allBlank (Session.joinLines (prepareAll false lines).1) = false from hblank,
      if_neg Bool.false_ne_true] at hstart
    -- A new reporter knows no number that could be in the way of a warning.
    exact hstart.resolve_right fun hfails => absurd hfails.2 (by decide)
  · rw [hunmarked]
    decide +kernel
  · rw [hunmarked]
    exact ⟨36, by decide +kernel, by decide +kernel⟩

end LetLang
