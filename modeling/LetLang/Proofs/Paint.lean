import LetLang.Proofs.Numerals
import LetLang.Proofs.Reports
/-!
# Texts without their paint

Deleting the escape sequences that select graphic renditions undoes painting, as long as what is
painted has no escape characters of its own. A painted text may be cut out of a line and put between
other texts: its width and its place are those of the bare text. So what a reporter prints with
colours is what it prints without them, and what it decides does not depend on them at all.
-/
namespace LetLang

namespace Text

/-! ### Deleting escape sequences -/

/-- The character that escape sequences begin with. -/
def escape : Char := '\x1b'

/-- The width of the sequence that a text begins with, if it is one that selects a graphic
rendition: an escape character, a bracket, digits and an `m`. -/
def renditionWidth : List Char → Nat
  | c :: '[' :: rest =>
    let digits := rest.takeWhile Numeral.isDigit
    if c = escape ∧ digits ≠ [] ∧ (rest.dropWhile Numeral.isDigit).head? = some 'm' then
      digits.length + 3
    else 0
  | _ => 0

/-- The text without such sequences, when the first `skipped` characters still belong to one. -/
def withoutRenditions : (skipped : Nat) → List Char → List Char
  | _, [] => []
  | skipped + 1, _ :: rest => withoutRenditions skipped rest
  | 0, c :: rest =>
    match renditionWidth (c :: rest) with
    | 0 => c :: withoutRenditions 0 rest
    | width + 1 => withoutRenditions width rest

/-- The text without the escape sequences that select graphic renditions. -/
def unpainted (text : String) : String :=
  String.ofList (withoutRenditions 0 text.toList)

theorem withoutRenditions_append (skipped rest : List Char) :
    withoutRenditions skipped.length (skipped ++ rest) = withoutRenditions 0 rest := by
  induction skipped with
  | nil => rfl
  | cons c skipped ih => exact ih

theorem renditionWidth_of_ne {c : Char} (h : c ≠ escape) (rest : List Char) :
    renditionWidth (c :: rest) = 0 := by
  unfold renditionWidth
  split
  · next heq =>
    cases heq
    exact if_neg fun hsequence => h hsequence.1
  · rfl

/-- A sequence that selects a rendition is deleted. -/
theorem withoutRenditions_rendition {code : String} (hcode : code ≠ "")
    (hdigits : code.toList.all Numeral.isDigit = true) (rest : List Char) :
    withoutRenditions 0 ((Ink.rendition code).toList ++ rest) = withoutRenditions 0 rest := by
  have htext : (Ink.rendition code).toList ++ rest =
      escape :: '[' :: (code.toList ++ 'm' :: rest) := by
    simp [Ink.rendition, escape]
  have hne : code.toList ≠ [] := by simpa using hcode
  have hall := List.all_eq_true.1 hdigits
  have htake : (code.toList ++ 'm' :: rest).takeWhile Numeral.isDigit = code.toList := by
    rw [List.takeWhile_append_of_pos hall, List.takeWhile_cons_of_neg (by decide),
      List.append_nil]
  have hdrop : (code.toList ++ 'm' :: rest).dropWhile Numeral.isDigit = 'm' :: rest := by
    rw [List.dropWhile_append_of_pos hall, List.dropWhile_cons_of_neg (by decide)]
  have hwidth : renditionWidth (escape :: '[' :: (code.toList ++ 'm' :: rest)) =
      code.toList.length + 2 + 1 := by
    rw [renditionWidth, htake, hdrop, if_pos ⟨rfl, hne, rfl⟩]
  have hskip := withoutRenditions_append ('[' :: (code.toList ++ ['m'])) rest
  rw [htext, withoutRenditions, hwidth]
  simpa using hskip

/-! ### Texts without escape characters -/

def EscapeFree (text : String) : Prop :=
  escape ∉ text.toList

instance (text : String) : Decidable (EscapeFree text) :=
  inferInstanceAs (Decidable (escape ∉ text.toList))

theorem escapeFree_empty : EscapeFree "" :=
  List.not_mem_nil

@[simp] theorem escapeFree_append {s t : String} :
    EscapeFree (s ++ t) ↔ EscapeFree s ∧ EscapeFree t := by
  simp [EscapeFree]

/-- From right to left, this shows that a long literal has no escape characters much faster than
deciding it does. -/
@[simp] theorem escapeFree_ofList {cs : List Char} :
    EscapeFree (String.ofList cs) ↔ escape ∉ cs := by
  simp [EscapeFree]

theorem escapeFree_of_forall {text : String} {p : Char → Bool}
    (h : ∀ c ∈ text.toList, p c = true) (hp : p escape = false) : EscapeFree text := by
  intro hmem
  rw [h escape hmem] at hp
  cases hp

@[simp] theorem escapeFree_repr (n : Nat) : EscapeFree (Nat.repr n) :=
  escapeFree_of_forall (fun _ hc => Numeral.isDigit_of_mem_repr hc) (by decide)

@[simp] theorem escapeFree_numeral (n : Int) : EscapeFree (Numeral.text n) := by
  rw [Numeral.text]
  split
  · exact escapeFree_append.2 ⟨by decide, escapeFree_repr _⟩
  · exact escapeFree_repr _

theorem escapeFree_join {texts : List String} (h : ∀ text ∈ texts, EscapeFree text) :
    EscapeFree (String.join texts) := by
  induction texts with
  | nil => decide
  | cons text texts ih =>
    rw [List.forall_mem_cons] at h
    simpa using ⟨h.1, ih h.2⟩

/-! ### Painted texts -/

/-- Without its escape sequences, a text is the same with colours as without, whatever follows. -/
def Painted (text : Bool → String) : Prop :=
  ∀ rest, withoutRenditions 0 ((text true).toList ++ rest) =
    (text false).toList ++ withoutRenditions 0 rest

theorem Painted.unpainted_eq {text : Bool → String} (h : Painted text) :
    unpainted (text true) = text false := by
  have hbare := h []
  rw [List.append_nil, withoutRenditions, List.append_nil] at hbare
  rw [unpainted, hbare, String.ofList_toList]

theorem withoutRenditions_of_notMem {cs : List Char} (h : escape ∉ cs) (rest : List Char) :
    withoutRenditions 0 (cs ++ rest) = cs ++ withoutRenditions 0 rest := by
  induction cs with
  | nil => rfl
  | cons c cs ih =>
    simp only [List.mem_cons, not_or] at h
    rw [List.cons_append, withoutRenditions, renditionWidth_of_ne (Ne.symm h.1), ih h.2,
      List.cons_append]

theorem EscapeFree.painted {text : String} (h : EscapeFree text) : Painted fun _ => text :=
  fun rest => withoutRenditions_of_notMem h rest

theorem Painted.append {s t : Bool → String} (hs : Painted s) (ht : Painted t) :
    Painted fun colours => s colours ++ t colours := by
  intro rest
  rw [String.toList_append, String.toList_append, List.append_assoc, hs, ht, List.append_assoc]

theorem Painted.join {α : Type} {text : Bool → α → String} {items : List α}
    (h : ∀ item ∈ items, Painted (text · item)) :
    Painted fun colours => String.join (items.map (text colours)) := by
  induction items with
  | nil => exact EscapeFree.painted (by decide)
  | cons item items ih =>
    rw [List.forall_mem_cons] at h
    simpa using h.1.append (ih h.2)

theorem painted_rendition {code : String} (hcode : code ≠ "")
    (hdigits : code.toList.all Numeral.isDigit = true) :
    Painted fun colours => if colours then Ink.rendition code else "" :=
  fun rest => withoutRenditions_rendition hcode hdigits rest

end Text

open Text

theorem Ink.painted_start (ink : Ink) :
    Painted fun colours => if colours then ink.start else "" := by
  cases ink with
  | plain => exact fun _ => rfl
  | red | magenta => exact painted_rendition (by decide) (by decide)

/-- Painting a text adds only escape sequences to it. -/
theorem Ink.painted_paint (ink : Ink) {text : String} (h : EscapeFree text) :
    Painted (ink.paint · text) := by
  have hbold : Painted fun colours => if colours then rendition "1" else "" :=
    painted_rendition (by decide) (by decide)
  have hend : Painted fun colours => if colours then rendition "0" else "" :=
    painted_rendition (by decide) (by decide)
  have hall := ((hbold.append ink.painted_start).append h.painted).append hend
  intro rest
  simpa [paint] using hall rest

/-! ### Notices -/

/-- Neither what the notice says nor what it shows has escape characters. -/
structure Notice.EscapeFree (notice : Notice) : Prop where
  wording : ∀ segment ∈ notice.wording, Text.EscapeFree segment.text
  source : Text.EscapeFree notice.source

theorem Segment.painted_highlighted {segment : Segment} (h : EscapeFree segment.text) :
    Painted (segment.highlighted ·) := by
  cases segment with
  | words text => exact EscapeFree.painted h
  | piece text => exact Ink.plain.painted_paint h

theorem Notice.painted_highlighted {notice : Notice} (h : notice.EscapeFree) :
    Painted (notice.highlighted ·) :=
  .join fun segment hsegment => segment.painted_highlighted (h.wording segment hsegment)

/-- The line that holds an offset is made of characters of the text. -/
theorem Text.mem_of_mem_locate {source : String} {offset : Int} {c : Char}
    (h : c ∈ (locate source offset).line.toList) : c ∈ source.toList := by
  simp only [locate, String.toList_ofList, List.mem_append, List.mem_reverse] at h
  rcases h with h | h
  · exact List.mem_of_mem_take (List.mem_reverse.1 ((List.takeWhile_sublist _).mem h))
  · exact List.mem_of_mem_drop ((List.takeWhile_sublist _).mem h)

theorem Notice.escapeFree_blanks (n : Nat) : Text.EscapeFree (blanks n) :=
  escapeFree_ofList.2 fun hmem => absurd (List.eq_of_mem_replicate hmem) (by decide)

theorem Notice.escapeFree_mark (width : Nat) : Text.EscapeFree (mark width) :=
  escapeFree_ofList.2 (by simp [Text.escape])

theorem Notice.painted_diagnosis {notice : Notice} (h : Text.EscapeFree notice.source) (ink : Ink) :
    Painted (notice.diagnosis · ink) := by
  have hline : Text.escape ∉ (locate notice.source notice.start).line.toList :=
    fun hmem => h (mem_of_mem_locate hmem)
  have htake {cs : List Char} (hcs : Text.escape ∉ cs) (n : Nat) : Text.escape ∉ cs.take n :=
    fun hmem => hcs (List.mem_of_mem_take hmem)
  have hdrop {cs : List Char} (hcs : Text.escape ∉ cs) (n : Nat) : Text.escape ∉ cs.drop n :=
    fun hmem => hcs (List.mem_of_mem_drop hmem)
  unfold diagnosis
  refine .append (.append (.append (.append (.append (.append (.append ?_ ?_) ?_) ?_) ?_) ?_) ?_) ?_
  · exact EscapeFree.painted (by decide)
  · exact (escapeFree_ofList.2 (htake hline _)).painted
  · exact ink.painted_paint (escapeFree_ofList.2 (hdrop (htake hline _) _))
  · exact (escapeFree_ofList.2 (hdrop hline _)).painted
  · exact EscapeFree.painted (by decide)
  · exact EscapeFree.painted (by decide)
  · exact (escapeFree_blanks _).painted
  · exact ink.painted_paint (escapeFree_mark _)

/-! ### Reports -/

/-- The entry has no escape characters in its path or in its line. -/
structure TraceEntry.EscapeFree (entry : TraceEntry) : Prop where
  path : Text.EscapeFree entry.path
  line : ∀ line ∈ entry.line, Text.EscapeFree line

/-- What the interruption says and shows has no escape characters. -/
def Interruption.EscapeFree : Interruption → Prop
  | .notice shown => shown.EscapeFree
  | .failure name message => Text.EscapeFree name ∧ Text.EscapeFree message
  | .keyboard | .recursion | .exit => True

namespace Reporter

def EscapeFree (reporter : Reporter) : Prop :=
  ∀ entry ∈ reporter.traceback, entry.EscapeFree

theorem eq_or_mem_of_mem_setEntry {entry found : TraceEntry} {entries : List TraceEntry}
    (h : found ∈ setEntry entry entries) : found = entry ∨ found ∈ entries := by
  induction entries with
  | nil => exact .inl (List.mem_singleton.1 h)
  | cons old rest ih =>
    rw [setEntry] at h
    split at h
    · exact (List.mem_cons.1 h).imp_right (List.mem_cons_of_mem _)
    · rcases List.mem_cons.1 h with rfl | hrest
      · exact .inr List.mem_cons_self
      · exact (ih hrest).imp_right (List.mem_cons_of_mem _)

theorem EscapeFree.register {reporter : Reporter} (h : reporter.EscapeFree) {path : String}
    (hpath : Text.EscapeFree path) {line : Option String}
    (hline : ∀ text ∈ line, Text.EscapeFree text) (number : Option LineNumber) :
    (reporter.register path line number).EscapeFree := by
  intro entry hentry
  rcases eq_or_mem_of_mem_setEntry hentry with rfl | hmem
  · exact ⟨hpath, hline⟩
  · exact h entry hmem

theorem EscapeFree.registerLine {reporter : Reporter} (h : reporter.EscapeFree) {path line : String}
    (hpath : Text.EscapeFree path) (hline : Text.EscapeFree line) (number : Option LineNumber) :
    (reporter.registerLine path line number).EscapeFree :=
  h.register hpath (by simpa using hline) number

theorem EscapeFree.removeLine {reporter : Reporter} (h : reporter.EscapeFree) {path : String}
    (hpath : Text.EscapeFree path) : (reporter.removeLine path).EscapeFree :=
  h.register hpath (by simp) none

theorem escapeFree_numberText (number : Option LineNumber) :
    Text.EscapeFree (numberText number) := by
  cases number with
  | none => decide
  | some n => exact escapeFree_numeral n.value

theorem escapeFree_entryText {entry : TraceEntry} (h : entry.EscapeFree) :
    Text.EscapeFree (entryText entry) := by
  rw [entryText]
  split
  · decide
  · next line hline =>
    split
    · decide
    · have hfile : Text.EscapeFree "  File '" ∧ Text.EscapeFree "', line " ∧
        Text.EscapeFree ":\n" ∧ Text.EscapeFree "    " ∧ Text.EscapeFree "\n" := by decide
      simp [hfile, h.path, h.line line hline, escapeFree_numberText]

theorem EscapeFree.tracebackText {reporter : Reporter} (h : reporter.EscapeFree) :
    Text.EscapeFree (tracebackText reporter.traceback) := by
  have hentries : Text.EscapeFree (String.join (reporter.traceback.map entryText)) :=
    escapeFree_join fun text htext => by
      obtain ⟨entry, hentry, rfl⟩ := List.mem_map.1 htext
      exact escapeFree_entryText (h entry hentry)
  rw [Reporter.tracebackText]
  split
  · decide
  · exact escapeFree_append.2 ⟨by decide, hentries⟩

theorem painted_diagnosisText {notice : Notice} (h : notice.EscapeFree) (ink : Ink) :
    Painted (diagnosisText · ink notice) := by
  unfold diagnosisText
  split
  · exact (Notice.painted_diagnosis h.source ink).append (EscapeFree.painted (by decide))
  · exact EscapeFree.painted (by decide)

variable {reporter : Reporter} {notice : Notice}

theorem painted_errorText (h : reporter.EscapeFree) (hnotice : notice.EscapeFree) :
    Painted (errorText · reporter notice) := by
  have hinternal : Painted fun colours =>
      if notice.internal then Ink.red.paint colours "[internal] " else "" := by
    cases notice.internal with
    | true => exact Ink.red.painted_paint (by decide)
    | false => exact EscapeFree.painted (by decide)
  unfold errorText
  refine .append (.append (.append (.append (.append ?_ hinternal) ?_) ?_) ?_) ?_
  · exact h.tracebackText.painted
  · exact Ink.red.painted_paint (by decide)
  · exact Notice.painted_highlighted hnotice
  · exact EscapeFree.painted (by decide)
  · exact painted_diagnosisText hnotice .red

theorem painted_warningText (h : reporter.EscapeFree) (hnotice : notice.EscapeFree) :
    Painted (warningText · reporter notice) := by
  have hplace : ∀ entry ∈ reporter.traceback.head?,
      Text.EscapeFree (entry.path ++ ":" ++ numberText entry.number) := by
    intro entry hentry
    have hcolon : Text.EscapeFree ":" := by decide
    simp [hcolon, (h entry (List.mem_of_mem_head? hentry)).path, escapeFree_numberText]
  unfold warningText
  refine .append (.append (.append (.append ?_ ?_) ?_) ?_) ?_
  · have hcolon : Text.EscapeFree ":" ∧ Text.EscapeFree ": " := by decide
    apply Ink.plain.painted_paint
    simp only [escapeFree_append, escapeFree_repr, hcolon, and_true]
    split
    · decide
    · next entry entries hentries => exact hplace entry (by simp [hentries])
  · exact Ink.magenta.painted_paint (by decide)
  · exact Notice.painted_highlighted hnotice
  · exact EscapeFree.painted (by decide)
  · exact painted_diagnosisText hnotice .magenta

/-! ### Settling -/

/-- What a reporter decides does not depend on the colours. -/
theorem settle_eq (colours : Bool) (reporter : Reporter) (interruption : Option Interruption) :
    reporter.settle colours interruption =
      { reporter.settle false interruption with
        printed := (reporter.settle colours interruption).printed } := by
  rcases interruption with _ | _ | _ | _ | _ | _
  case none | some.exit => rfl
  all_goals
    simp only [settle, report]
    split
    · split <;> rfl
    · rfl

theorem EscapeFree.settle (h : reporter.EscapeFree) (colours : Bool)
    (interruption : Option Interruption) :
    (reporter.settle colours interruption).reporter.EscapeFree := by
  have hforget : reporter.forgetLines.EscapeFree := by
    intro entry hentry
    obtain ⟨old, hold, rfl⟩ := List.mem_map.1 hentry
    exact ⟨(h old hold).path, by simp⟩
  rcases interruption with _ | _ | _ | _ | _ | _
  case none | some.exit => exact h
  all_goals
    simp only [Reporter.settle, report]
    split
    · split
      · exact h
      · exact hforget
    · exact h

theorem painted_settle (h : reporter.EscapeFree) {interruption : Option Interruption}
    (hinterruption : ∀ found ∈ interruption, found.EscapeFree) :
    Painted fun colours => (reporter.settle colours interruption).printed := by
  have hreport {notice : Notice} (hnotice : notice.EscapeFree) (otherwise : Verdict) :
      Painted fun colours => (reporter.report colours notice otherwise).printed := by
    cases hreport : reporter.canReport with
    | true => simpa only [printed_report hreport] using painted_errorText h hnotice
    | false =>
      have hprinted (colours : Bool) : (reporter.report colours notice otherwise).printed = "" := by
        rw [report, hreport, if_neg Bool.false_ne_true]
        rfl
      simpa only [hprinted] using EscapeFree.painted (by decide)
  have hplain {wording : List Segment}
      (hwording : ∀ segment ∈ wording, Text.EscapeFree segment.text) (internal : Bool) :
      Notice.EscapeFree { Notice.plain wording with internal } :=
    ⟨hwording, escapeFree_empty⟩
  cases interruption with
  | none => exact EscapeFree.painted (by decide)
  | some found =>
    cases found with
    | exit => exact EscapeFree.painted (by decide)
    | notice notice => exact hreport (hinterruption _ rfl) _
    | keyboard => exact hreport (hplain (by decide) false) _
    | recursion => exact hreport (hplain (by decide) false) _
    | failure name message =>
      obtain ⟨hname, hmessage⟩ := hinterruption _ rfl
      have hwords : Text.EscapeFree "unknown error: '" ∧ Text.EscapeFree ": " ∧
        Text.EscapeFree "'" := by decide
      exact hreport (hplain (by simp [Segment.text, hwords, hname, hmessage]) true) _

end Reporter
end LetLang
