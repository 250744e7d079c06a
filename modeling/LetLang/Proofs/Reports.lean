import LetLang.Reporter
/-!
# What reports say

The message of a notice is made of words and pieces. Its pattern can be filled with the pieces,
plain or in bold, whatever they hold, since there are no braces in the words; so no report fails for
want of its own text. What a reporter prints about a fault is the report of one notice.
-/
namespace LetLang

/-! ### Filling a pattern -/

namespace Template

/-- The numbering of fields when the pieces before an index have been taken. -/
def Numbering.before : Nat → Numbering
  | 0 => .undecided
  | n + 1 => .automatic (n + 1)

theorem choose_before (n : Nat) : choose (.before n) [] = .ok (n, .before (n + 1)) := by
  cases n <;> rfl

theorem parse_field (rest : List Char) :
    parse (openBrace :: closeBrace :: rest) =
      cons (.field { name := [], conversion := none, layout := [] }) (parse rest) := by
  rw [parse]
  rfl

theorem parse_char {c : Char} (hopen : c ≠ openBrace) (hclose : c ≠ closeBrace)
    (rest : List Char) : parse (c :: rest) = cons (.char c) (parse rest) := by
  cases rest with
  | nil => simp [parse, cons, hopen, hclose]
  | cons d rest =>
    rw [parse, if_neg hopen, if_neg hclose]

theorem parse_chars {cs : List Char} (h : openBrace ∉ cs ∧ closeBrace ∉ cs) (rest : List Char) :
    parse (cs ++ rest) =
      { parts := cs.map Part.char ++ (parse rest).parts, ending := (parse rest).ending } := by
  induction cs with
  | nil => rfl
  | cons c cs ih =>
    simp only [List.mem_cons, not_or] at h
    have hrest := ih ⟨h.1.2, h.2.2⟩
    rw [List.cons_append, parse_char (Ne.symm h.1.1) (Ne.symm h.2.1), hrest]
    rfl

/-- An empty field takes the next piece as it is. -/
theorem run_fillField (expand : List Char → Filling (List Char)) {pieces : List String} {n : Nat}
    {piece : String} (h : pieces[n]? = some piece) :
    (fillField expand pieces { name := [], conversion := none, layout := [] }).run (.before n) =
      .ok (piece, .before (n + 1)) := by
  have hresolve : resolve pieces (.before n) [] = .ok (.text piece, .before (n + 1)) := by
    simp [resolve, choose_before, h, select]
  simp only [fillField, StateT.run_bind, StateT.run_get, pure_bind, hresolve]
  rfl

end Template

namespace Segment

/-- The words of a segment have no braces in them. -/
def Braceless : Segment → Prop
  | words text => Template.openBrace ∉ text.toList ∧ Template.closeBrace ∉ text.toList
  | piece _ => True

/-- The parts of a template that stand for a segment. -/
def parts : Segment → List Template.Part
  | words text => text.toList.map .char
  | piece _ => [.field { name := [], conversion := none, layout := [] }]

end Segment

namespace Template

theorem parse_pattern {segments : List Segment} (h : ∀ segment ∈ segments, segment.Braceless) :
    parse (segments.flatMap (·.pattern.toList)) =
      { parts := segments.flatMap Segment.parts, ending := none } := by
  induction segments with
  | nil => simp [parse]
  | cons segment segments ih =>
    rw [List.forall_mem_cons] at h
    have hrest := ih h.2
    cases segment with
    | words text =>
      rw [List.flatMap_cons, Segment.pattern, parse_chars h.1, hrest]
      rfl
    | piece text =>
      have hpattern : (Segment.piece text).pattern.toList = [openBrace, closeBrace] := by
        simp [Segment.pattern, openBrace, closeBrace]
      rw [List.flatMap_cons, hpattern, List.cons_append, List.cons_append, List.nil_append,
        parse_field, hrest]
      rfl

theorem Filling.run_bind_of_ok {α β : Type} {x : Filling α} {numbering later : Numbering} {a : α}
    (h : x.run numbering = .ok (a, later)) (f : α → Filling β) :
    (x >>= f).run numbering = (f a).run later := by
  rw [StateT.run_bind, h]
  rfl

theorem run_fillParts_chars {expand : List Char → Filling (List Char)} {pieces : List String}
    {rest : List Part} {numbering later : Numbering} {filled : String}
    (h : (fillParts expand pieces rest).run numbering = .ok (filled, later)) (cs : List Char) :
    (fillParts expand pieces (cs.map Part.char ++ rest)).run numbering =
      .ok (String.ofList cs ++ filled, later) := by
  induction cs with
  | nil => simpa using h
  | cons c cs ih =>
    rw [List.map_cons, List.cons_append, fillParts, Filling.run_bind_of_ok ih]
    have hchars : String.singleton c ++ (String.ofList cs ++ filled) =
        String.ofList (c :: cs) ++ filled := by
      apply String.toList_inj.1
      simp
    rw [hchars]
    rfl

/-- The fields of a pattern take the pieces one after the other. -/
theorem run_fillParts (expand : List Char → Filling (List Char)) (segments : List Segment)
    (early : List String) :
    let pieces := early ++ segments.filterMap Segment.piece?
    (fillParts expand pieces (segments.flatMap Segment.parts)).run (.before early.length) =
      .ok (String.join (segments.map Segment.text), .before pieces.length) := by
  induction segments generalizing early with
  | nil =>
    dsimp only [List.filterMap_nil]
    rw [List.append_nil]
    rfl
  | cons segment segments ih =>
    cases segment with
    | words text =>
      have hrest := run_fillParts_chars (ih early) text.toList
      rw [String.ofList_toList] at hrest
      simpa [Segment.parts, Segment.text, Segment.piece?, List.filterMap_cons] using hrest
    | piece text =>
      have hrest := ih (early ++ [text])
      have hpiece : (early ++ text :: segments.filterMap Segment.piece?)[early.length]? =
          some text := by simp
      have hfield := run_fillField expand hpiece
      simp only [List.append_assoc, List.singleton_append, List.length_append,
        List.length_singleton] at hrest
      simp only [List.flatMap_cons, Segment.parts, List.singleton_append, List.filterMap_cons,
        Segment.piece?, fillParts, Filling.run_bind_of_ok hfield, Filling.run_bind_of_ok hrest,
        List.length_append, List.map_cons, Segment.text, String.join_cons]
      rfl

theorem Filling.run'_of_ok {α : Type} {x : Filling α} {numbering later : Numbering} {a : α}
    (h : x.run numbering = .ok (a, later)) : x.run' numbering = .ok a := by
  rw [StateT.run'_eq, h]
  rfl

/-- A pattern can be filled with its pieces, whatever they hold. -/
theorem format_pattern {segments : List Segment} (h : ∀ segment ∈ segments, segment.Braceless) :
    format (String.join (segments.map Segment.pattern)) (segments.filterMap Segment.piece?) =
      .ok (String.join (segments.map Segment.text)) := by
  have htext : (String.join (segments.map Segment.pattern)).toList =
      segments.flatMap (·.pattern.toList) := by
    simp [String.toList_join, List.flatMap_map]
  have hparts (expand : List Char → Filling (List Char)) :
      (fillParts expand (segments.filterMap Segment.piece?)
          (segments.flatMap Segment.parts)).run .undecided = _ :=
    run_fillParts expand segments []
  rw [format, htext, parse_pattern h]
  apply Filling.run'_of_ok
  rw [fill, Filling.run_bind_of_ok (hparts _)]
  rfl

end Template

/-! ### The notices of faults -/

namespace Segment

/-- The segment with its piece in bold. -/
def painted (colours : Bool) : Segment → Segment
  | words text => words text
  | piece text => piece (Ink.plain.paint colours text)

@[simp] theorem pattern_painted (colours : Bool) (segment : Segment) :
    (segment.painted colours).pattern = segment.pattern := by
  cases segment <;> rfl

@[simp] theorem text_painted (colours : Bool) (segment : Segment) :
    (segment.painted colours).text = segment.highlighted colours := by
  cases segment <;> rfl

theorem piece?_painted (colours : Bool) (segment : Segment) :
    (segment.painted colours).piece? = segment.piece?.map (Ink.plain.paint colours) := by
  cases segment <;> rfl

theorem Braceless.painted {segment : Segment} (h : segment.Braceless) (colours : Bool) :
    (segment.painted colours).Braceless := by
  cases segment with
  | words text => exact h
  | piece text => trivial

end Segment

namespace Notice

/-- The pattern of the notice can be filled, with plain pieces and with bold ones. -/
structure Fillable (notice : Notice) : Prop where
  message : Template.format notice.pattern notice.pieces = .ok notice.message
  highlighted : ∀ colours,
    Template.format notice.pattern (notice.pieces.map (Ink.plain.paint colours)) =
      .ok (notice.highlighted colours)

theorem fillable {notice : Notice} (h : ∀ segment ∈ notice.wording, segment.Braceless) :
    notice.Fillable := by
  refine ⟨Template.format_pattern h, ?_⟩
  intro colours
  have hbraceless : ∀ segment ∈ notice.wording.map (·.painted colours), segment.Braceless := by
    simpa using fun segment hsegment => (h segment hsegment).painted colours
  have hpainted := Template.format_pattern hbraceless
  simpa [Function.comp_def, Segment.piece?_painted, pattern, pieces, Notice.highlighted,
    List.filterMap_map, List.map_filterMap] using hpainted

end Notice

/-- What a reporter says of a fault. -/
def Fault.notice (fault : Fault) : Notice :=
  match fault.interruption with
  | .notice notice => notice
  | .failure name message => Reporter.failureNotice name message
  | _ => Reporter.recursionNotice

theorem LanguageError.braceless (error : LanguageError) :
    ∀ segment ∈ error.wording, segment.Braceless := by
  cases error <;>
    simp [wording, Notice.characterWording, Segment.Braceless, Template.openBrace,
      Template.closeBrace]

theorem LanguageError.wording_notice (error : LanguageError) :
    error.notice.wording = error.wording := by
  cases error <;> rfl

theorem Fault.fillable_notice (fault : Fault) : fault.notice.Fillable := by
  apply Notice.fillable
  cases fault with
  | language error =>
    have hwording : (Fault.language error).notice.wording = error.wording := error.wording_notice
    rw [hwording]
    exact error.braceless
  | recursionLimit | numeralTooLong | numberTooLong | exhausted =>
    simp [notice, interruption, Reporter.failureNotice, Reporter.recursionNotice, Notice.plain,
      Segment.Braceless, Template.openBrace, Template.closeBrace]

/-- The report of a fault, if there is one. -/
def Reporter.faultText (colours : Bool) (reporter : Reporter) (fault : Option Fault) : String :=
  match fault with
  | none => ""
  | some fault => reporter.errorText colours fault.notice

/-! ### Numbers that can be written -/

namespace LineNumber

@[simp] theorem text_counted (n : Nat) : (counted n).text = Nat.repr n := by
  have hnonneg : ¬ (n : Int) < 0 := by omega
  rw [text, value, Numeral.text, if_neg hnonneg, Int.natAbs_natCast]

/-- The number is a count of lines. -/
def Counted (number : LineNumber) : Prop := ∃ n, number = counted n

theorem counted_natCast (n : Nat) : Counted n := ⟨n, rfl⟩

theorem Counted.plus {number : LineNumber} (h : number.Counted) (lines : Nat) :
    (number.plus lines).Counted := by
  obtain ⟨n, rfl⟩ := h
  exact ⟨n + lines, rfl⟩

theorem Counted.writable {number : LineNumber} (h : number.Counted) : number.writable = true := by
  obtain ⟨n, rfl⟩ := h
  rfl

end LineNumber

/-- A reporter that knows one file can list its line, if the number of the line is a count. -/
theorem Reporter.canReport_of_counted {fatal : Bool} {path : String} {line : Option String}
    {number : Option LineNumber} (h : ∀ n ∈ number, n.Counted) :
    canReport { fatal, traceback := [{ path, line, number }] } = true := by
  have hnumber : number.all LineNumber.writable = true := by
    rw [Option.all_eq_true]
    exact fun n hn => (h n hn).writable
  simp only [canReport, List.all_cons, List.all_nil, Bool.and_true, entryWritable]
  split
  · rfl
  · rw [hnumber, Bool.or_true]

/-- A reporter that can list its lines prints the report of what it settles. -/
theorem Reporter.printed_report {reporter : Reporter} (h : reporter.canReport = true)
    (colours : Bool) (notice : Notice) (otherwise : Verdict) :
    (reporter.report colours notice otherwise).printed = reporter.errorText colours notice := by
  rw [report, if_pos h]
  split <;> rfl

/-- What a reporter prints when it settles a fault is the report of the fault. -/
theorem Reporter.printed_settle {reporter : Reporter} (h : reporter.canReport = true)
    (colours : Bool) (fault : Option Fault) :
    (reporter.settle colours (fault.map Fault.interruption)).printed =
      reporter.faultText colours fault := by
  rcases fault with _ | fault
  · rfl
  · cases fault with
    | language error | recursionLimit | numeralTooLong | numberTooLong | exhausted =>
      exact printed_report h colours _ _

end LetLang
