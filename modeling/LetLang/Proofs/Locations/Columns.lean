import Mathlib.Data.Set.Function
import LetLang.Proofs.Locations
/-!
# Offsets, lines and columns

Only line feeds divide a text into lines. A line has a column for each of its characters, and one
after the last of them for the line feed or the end of the text. Each offset of the text, its end
included, stands in one column of one line, and each column of a line is that of one offset.
-/
namespace LetLang

open Text

theorem joined_splitOn (cs : List Char) : joined (cs.splitOn '\n') = cs ++ ['\n'] := by
  induction cs with
  | nil => rfl
  | cons c cs ih =>
    rw [List.splitOn_cons_eq_if_modifyHead]
    split
    · next hc => rw [joined_cons, ih, eq_of_beq hc, List.nil_append, List.cons_append]
    · cases hlines : cs.splitOn '\n' with
      | nil => exact absurd hlines (List.splitOn_ne_nil _ _)
      | cons line lines =>
        rw [hlines, joined_cons] at ih
        rw [List.modifyHead_cons, joined_cons, List.cons_append, ih, List.cons_append]

theorem notMem_splitOn (cs : List Char) : ∀ line ∈ cs.splitOn '\n', '\n' ∉ line := by
  induction cs with
  | nil => simp [List.splitOn_nil]
  | cons c cs ih =>
    rw [List.splitOn_cons_eq_if_modifyHead]
    split
    · exact List.forall_mem_cons.2 ⟨by simp, ih⟩
    · next hc =>
      cases hlines : cs.splitOn '\n' with
      | nil => exact absurd hlines (List.splitOn_ne_nil _ _)
      | cons line lines =>
        rw [hlines, List.forall_mem_cons] at ih
        rw [List.modifyHead_cons, List.forall_mem_cons]
        have hne : '\n' ≠ c := fun heq => hc (beq_iff_eq.2 heq.symm)
        exact ⟨by simp [hne, ih.1], ih.2⟩

/-- Every offset within joined lines is in one of them, a line break in the line that it ends. -/
theorem exists_line_of_lt {lines : List (List Char)} {pos : Nat} (h : pos < (joined lines).length) :
    ∃ before line after column, lines = before ++ line :: after ∧
      pos = (joined before).length + column ∧ column ≤ line.length := by
  induction lines generalizing pos with
  | nil => simp at h
  | cons line lines ih =>
    by_cases hpos : pos ≤ line.length
    · exact ⟨[], line, lines, pos, rfl, by simp, hpos⟩
    · have hrest : pos - (line.length + 1) < (joined lines).length := by
        simp only [joined_cons, List.length_append, List.length_cons] at h
        omega
      obtain ⟨before, found, after, column, rfl, hcolumn, hle⟩ := ih hrest
      refine ⟨line :: before, found, after, column, rfl, ?_, hle⟩
      simp only [joined_cons, List.length_append, List.length_cons]
      omega

/-! ### Columns of lines -/

namespace Text

/-- The columns of lines, each with the index of its line. -/
def columns (lines : List (List Char)) : Set (Nat × Nat) :=
  {place | ∃ line, lines[place.1]? = some line ∧ place.2 ≤ line.length}

/-- The offset of a column: behind the lines before it, their line feeds, and the columns before it
in its own line. -/
def offsetOf (lines : List (List Char)) (index column : Nat) : Nat :=
  ((lines.take index).map List.length).sum + index + column

theorem length_joined (lines : List (List Char)) :
    (joined lines).length = (lines.map List.length).sum + lines.length := by
  induction lines with
  | nil => rfl
  | cons line lines ih =>
    simp only [joined_cons, List.length_append, List.length_cons, List.map_cons, List.sum_cons, ih]
    omega

theorem offsetOf_append (before after : List (List Char)) (line : List Char) (column : Nat) :
    offsetOf (before ++ line :: after) before.length column = (joined before).length + column := by
  simp [offsetOf, length_joined]

variable {source : String}

/-- A column of a line of a text is located there, and the text goes on behind the line with a line
feed or not at all. -/
theorem locate_split {before after : List (List Char)} {line : List Char} {column : Nat}
    (h : source.toList.splitOn '\n' = before ++ line :: after) (hcolumn : column ≤ line.length) :
    locate source ((joined before).length + column : Nat) =
        { line := String.ofList line, index := before.length, column } ∧
      ∃ tail, source.toList = joined before ++ (line ++ tail) ∧
        tail.takeWhile (· ≠ '\n') = [] := by
  have hbreaks := notMem_splitOn source.toList
  have hlaid : Laid source (source.toList.splitOn '\n') := .inr (by simp [joined_splitOn])
  rw [h] at hbreaks hlaid
  obtain ⟨tail, hsource, htail⟩ := hlaid.split
  have hlocate := locate_joined hsource (fun other hother => hbreaks other (by simp [hother]))
    (hbreaks line (by simp)) htail hcolumn
  exact ⟨hlocate, tail, hsource, htail⟩

/-- Every offset of a text is in one of its lines. -/
theorem exists_split {offset : Nat} (h : offset ≤ source.length) :
    ∃ before line after column, source.toList.splitOn '\n' = before ++ line :: after ∧
      offset = (joined before).length + column ∧ column ≤ line.length := by
  apply exists_line_of_lt
  simp only [joined_splitOn, List.length_append, String.length_toList, List.length_singleton]
  omega

/-- What stands in a column of a line of a text is located there. -/
theorem locate_offsetOf {index column : Nat} {line : List Char}
    (hline : (source.toList.splitOn '\n')[index]? = some line) (hcolumn : column ≤ line.length) :
    offsetOf (source.toList.splitOn '\n') index column ≤ source.length ∧
      locate source (offsetOf (source.toList.splitOn '\n') index column) =
        { line := String.ofList line, index, column } := by
  obtain ⟨before, after, hsplit, rfl⟩ : ∃ before after,
      source.toList.splitOn '\n' = before ++ line :: after ∧ before.length = index := by
    obtain ⟨hlt, hget⟩ := List.getElem?_eq_some_iff.1 hline
    refine ⟨(source.toList.splitOn '\n').take index, (source.toList.splitOn '\n').drop (index + 1),
      ?_, List.length_take_of_le (Nat.le_of_lt hlt)⟩
    rw [← hget, List.getElem_cons_drop, List.take_append_drop]
  obtain ⟨hlocate, tail, hsource, -⟩ := locate_split hsplit hcolumn
  rw [hsplit, offsetOf_append]
  refine ⟨?_, hlocate⟩
  have hlength := congrArg List.length hsource
  simp only [String.length_toList, List.length_append] at hlength
  omega

/-- An offset of a text stands in a column of a line. -/
theorem exists_offsetOf_eq {offset : Nat} (h : offset ≤ source.length) :
    ∃ index line column, (source.toList.splitOn '\n')[index]? = some line ∧ column ≤ line.length ∧
      offset = offsetOf (source.toList.splitOn '\n') index column := by
  obtain ⟨before, line, after, column, hsplit, hoffset, hcolumn⟩ := exists_split h
  refine ⟨before.length, line, column, ?_, hcolumn, ?_⟩
  · simp [hsplit]
  · rw [hsplit, offsetOf_append, hoffset]

/-- Offsets outside a text are located at its ends. -/
theorem locate_outside (source : String) :
    (∀ offset : Int, offset < 0 → locate source offset = locate source 0) ∧
      ∀ offset : Int, source.length < offset →
        locate source offset = locate source source.length := by
  have hclamp {offset other : Int}
      (h : clamp offset source.toList.length = clamp other source.toList.length) :
      locate source offset = locate source other := by
    simp only [locate, h]
  constructor
  · intro offset h
    apply hclamp
    simp only [clamp]
    omega
  · intro offset h
    apply hclamp
    simp only [clamp, String.length_toList]
    omega

/-- Locating takes the offsets of a text one to one to the columns of its lines. It names the line,
and the lengths of the lines before it, their line feeds and the column add up to the offset.
Offsets outside the text are taken for its ends. -/
theorem locate_bijective (source : String) :
    let lines := source.toList.splitOn '\n'
    Set.BijOn
        (fun offset : Nat => ((locate source offset).index, (locate source offset).column))
        (Set.Iic source.length) (columns lines) ∧
      (∀ offset : Nat, offset ≤ source.length → ∃ index line column,
        locate source offset = { line := String.ofList line, index, column } ∧
          lines[index]? = some line ∧ column ≤ line.length ∧
          ((lines.take index).map List.length).sum + index + column = offset) ∧
      (∀ offset : Int, offset < 0 → locate source offset = locate source 0) ∧
      ∀ offset : Int, source.length < offset →
        locate source offset = locate source source.length := by
  intro lines
  have hplace : ∀ offset : Nat, offset ≤ source.length → ∃ index line column,
      locate source offset = { line := String.ofList line, index, column } ∧
        lines[index]? = some line ∧ column ≤ line.length ∧
        offsetOf lines index column = offset := by
    intro offset hoffset
    obtain ⟨index, line, column, hline, hcolumn, rfl⟩ := exists_offsetOf_eq hoffset
    exact ⟨index, line, column, (locate_offsetOf hline hcolumn).2, hline, hcolumn, rfl⟩
  refine ⟨⟨?_, ?_, ?_⟩, hplace, locate_outside source⟩
  · intro offset hoffset
    obtain ⟨index, line, column, hlocate, hline, hcolumn, -⟩ := hplace offset hoffset
    simp only [hlocate]
    exact ⟨line, hline, hcolumn⟩
  · -- The index and the column of an offset add up to it.
    intro offset hoffset other hother heq
    obtain ⟨index, line, column, hlocate, -, -, hsum⟩ := hplace offset hoffset
    obtain ⟨index', line', column', hlocate', -, -, hsum'⟩ := hplace other hother
    simp only [hlocate, hlocate', Prod.mk.injEq] at heq
    rw [← hsum, ← hsum', heq.1, heq.2]
  · rintro ⟨index, column⟩ ⟨line, hline, hcolumn⟩
    obtain ⟨hle, hlocate⟩ := locate_offsetOf hline hcolumn
    exact ⟨offsetOf lines index column, hle, by simp only [lines, hlocate]⟩

/-- The line feed that ends the first line stands in it, and an empty line has one column. -/
theorem locate_bijective_empty_line :
    let lines := "ab\n\nc".toList.splitOn '\n'
    (2 ≤ "ab\n\nc".length ∧ ∃ index line column,
      locate "ab\n\nc" (2 : Nat) = { line := String.ofList line, index, column } ∧
        lines[index]? = some line ∧ column ≤ line.length ∧
        ((lines.take index).map List.length).sum + index + column = 2) ∧
      locate "ab\n\nc" 2 = { line := "ab", index := 0, column := 2 } ∧
      locate "ab\n\nc" 3 = { line := "", index := 1, column := 0 } ∧
      locate "ab\n\nc" 9 = { line := "c", index := 2, column := 1 } := by
  intro lines
  obtain ⟨-, hplaces, -, hbeyond⟩ := locate_bijective "ab\n\nc"
  have hlength : (2 : Nat) ≤ "ab\n\nc".length := by decide +kernel
  refine ⟨⟨hlength, hplaces 2 hlength⟩, by decide +kernel, by decide +kernel, ?_⟩
  rw [hbeyond 9 (by decide +kernel)]
  decide +kernel

end Text
end LetLang
