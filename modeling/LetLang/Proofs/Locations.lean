import LetLang.Proofs.Lexing.Broken
import LetLang.Session
/-!
# The lines of tokens

A source that was made by joining lines is located back to them: the line of a token is the one that
the token's text is in, and its index is the number of lines before that one.
-/
namespace LetLang

open Text

/-- The lines as one list of characters, with a line break after each. -/
def joined (lines : List (List Char)) : List Char :=
  lines.flatMap (· ++ ['\n'])

@[simp] theorem joined_nil : joined [] = [] := rfl

@[simp] theorem joined_cons (line : List Char) (lines : List (List Char)) :
    joined (line :: lines) = line ++ '\n' :: joined lines := by
  simp [joined]

theorem joined_append (lines others : List (List Char)) :
    joined (lines ++ others) = joined lines ++ joined others := by
  simp [joined]

theorem toList_joinLines (lines : List (List Char)) :
    (Session.joinLines lines).toList = joined lines := by
  rw [Session.joinLines, String.toList_ofList, joined]

/-! ### Locating an offset -/

theorem count_joined {lines : List (List Char)} (h : ∀ line ∈ lines, '\n' ∉ line) :
    (joined lines).count '\n' = lines.length := by
  induction lines with
  | nil => rfl
  | cons line lines ih =>
    rw [List.forall_mem_cons] at h
    rw [joined_cons, List.count_append, List.count_eq_zero_of_not_mem h.1, List.count_cons_self,
      ih h.2, List.length_cons, Nat.zero_add]

/-- Going back from a place after whole lines comes to a line break at once. -/
theorem takeWhile_reverse_joined (lines : List (List Char)) :
    (joined lines).reverse.takeWhile (· ≠ '\n') = [] := by
  induction lines using List.reverseRecOn with
  | nil => rfl
  | append_singleton lines line => simp [joined_append]

theorem takeWhile_append_of_break {line rest : List Char} (h : '\n' ∉ line)
    (hrest : rest.takeWhile (· ≠ '\n') = []) :
    (line ++ rest).takeWhile (· ≠ '\n') = line := by
  rw [List.takeWhile_append_of_pos, hrest, List.append_nil]
  intro c hc
  have hne : c ≠ '\n' := fun heq => h (heq ▸ hc)
  simp [hne]

theorem locate_joined {source : String} {before : List (List Char)} {line tail : List Char}
    {column : Nat} (hsource : source.toList = joined before ++ (line ++ tail))
    (hbefore : ∀ line ∈ before, '\n' ∉ line) (hline : '\n' ∉ line)
    (htail : tail.takeWhile (· ≠ '\n') = []) (hcolumn : column ≤ line.length) :
    locate source ((joined before).length + column : Nat) =
      { line := String.ofList line, index := before.length, column } := by
  have hhere : clamp (((joined before).length + column : Nat) : Int) source.toList.length =
      (joined before).length + column := by
    rw [clamp, Int.toNat_natCast, hsource]
    apply Nat.min_eq_left
    simp only [List.length_append]
    omega
  have htake : source.toList.take ((joined before).length + column) =
      joined before ++ line.take column := by
    rw [hsource, List.take_length_add_append, List.take_append_of_le_length hcolumn]
  have hdrop : source.toList.drop ((joined before).length + column) =
      line.drop column ++ tail := by
    rw [hsource, List.drop_length_add_append, List.drop_append_of_le_length hcolumn]
  have hhead : ((joined before ++ line.take column).reverse.takeWhile (· ≠ '\n')).reverse =
      line.take column := by
    rw [List.reverse_append, takeWhile_append_of_break _ (takeWhile_reverse_joined before),
      List.reverse_reverse]
    intro hmem
    exact hline (List.mem_of_mem_take (List.mem_reverse.1 hmem))
  have hrest : (line.drop column ++ tail).takeWhile (· ≠ '\n') = line.drop column :=
    takeWhile_append_of_break (fun hmem => hline (List.mem_of_mem_drop hmem)) htail
  have hcount : (joined before ++ line.take column).count '\n' = before.length := by
    rw [List.count_append, count_joined hbefore, List.count_eq_zero_of_not_mem, Nat.add_zero]
    exact fun hmem => hline (List.mem_of_mem_take hmem)
  unfold locate
  dsimp only
  rw [hhere, htake, hdrop, hhead, hrest, hcount, List.take_append_drop, List.length_take,
    Nat.min_eq_left hcolumn]

/-! ### The line of a character -/

/-- A character of joined lines that is no line break is in one of the lines. -/
theorem exists_line_of_getElem? {lines : List (List Char)} {pos : Nat} {c : Char}
    (h : (joined lines)[pos]? = some c) (hc : c ≠ '\n') :
    ∃ before found after column, lines = before ++ found :: after ∧
      pos = (joined before).length + column ∧ found[column]? = some c := by
  induction lines generalizing pos with
  | nil => cases h
  | cons line lines ih =>
    rw [joined_cons] at h
    by_cases hpos : pos < line.length
    · rw [List.getElem?_append_left hpos] at h
      exact ⟨[], line, lines, pos, rfl, by simp, h⟩
    · rw [List.getElem?_append_right (Nat.le_of_not_lt hpos)] at h
      obtain ⟨offset, hoffset⟩ := Nat.exists_eq_add_of_le (Nat.le_of_not_lt hpos)
      rw [hoffset, Nat.add_sub_cancel_left] at h
      cases offset with
      | zero =>
        cases h
        exact absurd rfl hc
      | succ offset =>
        rw [List.getElem?_cons_succ] at h
        obtain ⟨before, found, after, column, rfl, rfl, hfound⟩ := ih h
        refine ⟨line :: before, found, after, column, rfl, ?_, hfound⟩
        simp only [joined_cons, List.length_append, List.length_cons]
        omega

/-- The source is the lines joined, perhaps without the last line break. -/
def Laid (source : String) (lines : List (List Char)) : Prop :=
  source.toList = joined lines ∨ source.toList = (joined lines).dropLast

/-- A line of a source begins after the lines before it, and ends before a line break or with the
source. -/
theorem Laid.split {source : String} {before after : List (List Char)} {line : List Char}
    (h : Laid source (before ++ line :: after)) :
    ∃ tail, source.toList = joined before ++ (line ++ tail) ∧
      tail.takeWhile (· ≠ '\n') = [] := by
  rw [Laid, joined_append, joined_cons] at h
  rcases h with hsource | hsource
  · exact ⟨'\n' :: joined after, hsource, rfl⟩
  · rw [List.dropLast_append_of_ne_nil (by simp), List.dropLast_append_of_ne_nil (by simp)] at hsource
    refine ⟨('\n' :: joined after).dropLast, hsource, ?_⟩
    cases joined after <;> rfl

theorem Laid.getElem? {source : String} {lines : List (List Char)} {pos : Nat} {c : Char}
    (h : Laid source lines) (hc : source.toList[pos]? = some c) : (joined lines)[pos]? = some c := by
  rcases h with hsource | hsource
  · rwa [hsource] at hc
  · rw [hsource, List.getElem?_dropLast] at hc
    split at hc
    · exact hc
    · cases hc

/-! ### The line of a token -/

/-- The token stands on the line with the index, its text being part of it. -/
def Token.On (token : Token) (lines : List (List Char)) (index : Nat) : Prop :=
  ∃ before line after column, lines = before ++ line :: after ∧ before.length = index ∧
    token.pos = (joined before).length + column ∧ token.text ≠ "" ∧
    token.text.toList <+: line.drop column

/-- A text without line breaks that goes on in a line does not go beyond it. -/
theorem prefix_of_prefix_append {text line tail : List Char} (h : text <+: line ++ tail)
    (htext : '\n' ∉ text) (htail : tail.takeWhile (· ≠ '\n') = []) : text <+: line := by
  induction line generalizing text with
  | nil =>
    cases text with
    | nil => exact List.prefix_rfl
    | cons c text =>
      obtain ⟨rest, hrest⟩ := h
      rw [List.nil_append] at hrest
      rw [← hrest] at htail
      have hc : c = '\n' := by simpa using htail
      simp [hc] at htext
  | cons d line ih =>
    cases text with
    | nil => exact List.nil_prefix
    | cons c text =>
      rw [List.cons_append, List.cons_prefix_cons] at h
      rw [List.cons_prefix_cons]
      exact ⟨h.1, ih h.2 (List.not_mem_of_not_mem_cons htext)⟩

/-- Only blanks are stripped. -/
theorem all_isBlank_of_strip_eq_nil {cs : List Char} (h : strip cs = []) :
    ∀ c ∈ cs, isBlank c = true := by
  have hright : ∀ c ∈ stripLeft cs, isBlank c = true := by
    intro c hc
    have hdrop := List.reverse_eq_nil_iff.1 h
    exact List.dropWhile_eq_nil_iff.1 hdrop c (List.mem_reverse.2 hc)
  intro c hc
  rw [← List.takeWhile_append_dropWhile (p := isBlank) (l := cs)] at hc
  rcases List.mem_append.1 hc with hleft | hrest
  · exact List.mem_takeWhile_imp hleft
  · exact hright c hrest

theorem isBlank_of_visible {c : Char} (h : 0x21 ≤ c.toNat ∧ c.toNat ≤ 0x7E) :
    isBlank c = false := by
  simp only [isBlank, blankRanges, List.any_eq_false, List.forall_mem_cons, Bool.and_eq_true,
    decide_eq_true_eq, List.not_mem_nil, false_imp_iff, implies_true, and_true]
  omega

/-- The line that a token of a source is located at is the one that it stands on. -/
theorem exists_on {source : String} {lines : List (List Char)} {token : Token}
    (hlaid : Laid source lines) (hlines : ∀ line ∈ lines, '\n' ∉ line)
    (htoken : Lexer.Placed source.toList token) :
    ∃ index line, token.On lines index ∧ lines[index]? = some line ∧ strip line ≠ [] ∧
      (locate source token.pos).line = String.ofList line ∧
      (locate source token.pos).index = index := by
  obtain ⟨hne, hvisible⟩ := Kind.visible_of_mem_language htoken.munched.mem
  obtain ⟨c, text, htext⟩ := List.exists_cons_of_ne_nil hne
  have hc : isBlank c = false := isBlank_of_visible (hvisible c (by simp [htext]))
  have hbreak : '\n' ∉ token.text.toList := fun hmem => absurd (hvisible _ hmem) (by decide)
  -- The first character of the token picks the line.
  have hfirst : source.toList[token.pos]? = some c := by
    obtain ⟨rest, hrest⟩ := htoken.munched.begins
    rw [← Nat.add_zero token.pos, ← List.getElem?_drop, ← hrest, htext]
    rfl
  have hcbreak : c ≠ '\n' := by
    rintro rfl
    simp [htext] at hbreak
  obtain ⟨before, line, after, column, rfl, hpos, hcolumn⟩ :=
    exists_line_of_getElem? (hlaid.getElem? hfirst) hcbreak
  obtain ⟨tail, hsource, htail⟩ := hlaid.split
  have hle : column ≤ line.length :=
    Nat.le_of_lt (List.getElem?_eq_some_iff.1 hcolumn).1
  have hwithin : token.text.toList <+: line.drop column := by
    have hbegins := htoken.munched.begins
    rw [hpos, hsource, List.drop_length_add_append, List.drop_append_of_le_length hle] at hbegins
    exact prefix_of_prefix_append hbegins hbreak htail
  have hlocate := locate_joined hsource (fun line hline => hlines line (by simp [hline]))
    (hlines line (by simp)) htail hle
  refine ⟨before.length, line, ⟨before, line, after, column, rfl, rfl, hpos, htoken.nonempty,
    hwithin⟩, by simp, ?_, ?_, ?_⟩
  · intro hstrip
    have hblank := all_isBlank_of_strip_eq_nil hstrip c (List.mem_of_getElem? hcolumn)
    rw [hc] at hblank
    cases hblank
  · rw [hpos, hlocate]
  · rw [hpos, hlocate]

/-! ### Prepared lines -/

theorem mem_of_mem_dropWhileRight {drop : Char → Bool} {cs : List Char} {c : Char}
    (h : c ∈ dropWhileRight drop cs) : c ∈ cs :=
  List.mem_reverse.1 ((List.dropWhile_sublist _).mem (List.mem_reverse.1 h))

theorem mem_of_mem_strip {cs : List Char} {c : Char} (h : c ∈ strip cs) : c ∈ cs :=
  (List.dropWhile_sublist _).mem (mem_of_mem_dropWhileRight h)

/-- Preparing a line brings no character into it but spaces. -/
theorem notMem_prepare {c : Char} (hc : c ≠ ' ') {line : List Char} (h : c ∉ line)
    (continuing : Bool) : c ∉ (Continuation.prepare line continuing).1 := by
  have hbare : c ∉ dropWhileRight (fun c => c = '\r' || c = '\n') line :=
    fun hmem => h (mem_of_mem_dropWhileRight hmem)
  unfold Continuation.prepare
  dsimp only
  generalize dropWhileRight (fun c => c = '\r' || c = '\n') line = bare at hbare
  have hjoined : c ∉ (if continuing then ' ' :: stripLeft bare else bare) := by
    split
    · have hstripped : c ∉ stripLeft bare :=
        fun hmem => hbare ((List.dropWhile_sublist _).mem hmem)
      exact List.not_mem_cons_of_ne_of_not_mem hc hstripped
    · exact hbare
  generalize (if continuing then ' ' :: stripLeft bare else bare) = whole at hjoined
  split
  · exact fun hmem => hjoined (mem_of_mem_dropWhileRight (List.mem_of_mem_dropLast hmem))
  · exact hjoined

theorem notMem_prepareAll {c : Char} (hc : c ≠ ' ') {lines : List (List Char)}
    (h : ∀ line ∈ lines, c ∉ line) (continuing : Bool) :
    ∀ line ∈ (Continuation.prepareAll continuing lines).1, c ∉ line := by
  induction lines generalizing continuing with
  | nil => simp [Continuation.prepareAll]
  | cons line lines ih =>
    rw [List.forall_mem_cons] at h
    rw [Continuation.prepareAll]
    exact List.forall_mem_cons.2 ⟨notMem_prepare hc h.1 continuing, ih h.2 _⟩

theorem notMem_heldLines (cs : List Char) : ∀ line ∈ heldLines cs, '\n' ∉ line := by
  induction cs with
  | nil => simp [heldLines]
  | cons c rest ih =>
    rw [heldLines]
    split
    · exact List.forall_mem_cons.2 ⟨by simp, ih⟩
    · next hc =>
      split
      · simpa using Ne.symm hc
      · next line lines heq =>
        rw [heq, List.forall_mem_cons] at ih
        refine List.forall_mem_cons.2 ⟨?_, ih.2⟩
        simpa [ih.1] using Ne.symm hc

/-- Dividing a text into lines brings no character into them. -/
theorem subset_of_mem_heldLines (cs : List Char) : ∀ line ∈ heldLines cs, line ⊆ cs := by
  induction cs with
  | nil => simp [heldLines]
  | cons c rest ih =>
    have hrest {line : List Char} (h : line ⊆ rest) : line ⊆ c :: rest :=
      List.subset_cons_of_subset c h
    rw [heldLines]
    split
    · exact List.forall_mem_cons.2 ⟨List.nil_subset _, fun line hline => hrest (ih line hline)⟩
    · split
      · simp
      · next first lines heq =>
        rw [heq, List.forall_mem_cons] at ih
        refine List.forall_mem_cons.2 ⟨List.cons_subset_cons c ih.1, fun line hline => ?_⟩
        exact hrest (ih.2 line hline)

end LetLang
