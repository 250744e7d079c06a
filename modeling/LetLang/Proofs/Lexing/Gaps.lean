import Mathlib.Data.List.TakeWhile
import LetLang.Proofs.Lexing
/-!
# Gaps

A gap is a sequence of spaces and comments: a `//` comment reaches to the end of its line, a block
comment to the first `*/` after its beginning. The gap that is skipped is one, and nothing that
could go on with it follows; there is only one such gap.
-/
namespace LetLang.Lexer

/-- A run of spaces or a comment, before the rest of a text. -/
inductive GapItem : List Char → List Char → Prop
  | spaces {item rest} (hne : item ≠ []) (h : ∀ c ∈ item, isSpace c = true) : GapItem item rest
  | line {body rest} (hbody : ∀ c ∈ body, endsLine c = false)
      (hrest : ∀ c ∈ rest.head?, endsLine c = true) : GapItem ('/' :: '/' :: body) rest
  | block {body rest} (hbody : ¬ ['*', '/'] <:+: body) :
      GapItem ('/' :: '*' :: (body ++ ['*', '/'])) rest

/-- Spaces and comments one after the other, before the rest of a text. -/
inductive Gap : List Char → List Char → Prop
  | nil {rest} : Gap [] rest
  | cons {item gap rest} (hitem : GapItem item (gap ++ rest)) (hgap : Gap gap rest) :
      Gap (item ++ gap) rest

def StartsItem (cs : List Char) : Prop :=
  ∃ item rest, GapItem item rest ∧ item ++ rest = cs

/-! ### Block comments -/

theorem closeWidth_of_block {body : List Char} (h : ¬ ['*', '/'] <:+: body) (rest : List Char) :
    closeWidth (body ++ '*' :: '/' :: rest) = some (body.length + 2) := by
  induction body with
  | nil => simp [closeWidth]
  | cons c body ih =>
    have htail : ¬ ['*', '/'] <:+: body := fun hin => h (List.infix_cons hin)
    cases body with
    | nil =>
      have hih := ih htail
      simp only [List.nil_append] at hih
      simp [closeWidth]
    | cons d body =>
      have hopen : ¬ (c = '*' ∧ d = '/') := by
        rintro ⟨rfl, rfl⟩
        exact h ⟨[], body, rfl⟩
      have hih := ih htail
      simp only [List.cons_append] at hih ⊢
      rw [closeWidth, if_neg hopen, hih]
      rfl

theorem exists_block_of_closeWidth {cs : List Char} {n : Nat} (h : closeWidth cs = some n) :
    ∃ body rest, cs = body ++ '*' :: '/' :: rest ∧ ¬ ['*', '/'] <:+: body ∧
      n = body.length + 2 := by
  fun_induction closeWidth cs generalizing n with
  | case1 => cases h
  | case2 => cases h
  | case3 c d rest hclose =>
    obtain ⟨rfl, rfl⟩ := hclose
    cases h
    exact ⟨[], rest, rfl, by simp, rfl⟩
  | case4 c d rest hopen ih =>
    obtain ⟨m, hm, rfl⟩ := Option.map_eq_some_iff.1 h
    obtain ⟨body, more, hbody, hnone, rfl⟩ := ih hm
    refine ⟨c :: body, more, by rw [hbody, List.cons_append], ?_, rfl⟩
    rw [List.infix_cons_iff, not_or]
    refine ⟨?_, hnone⟩
    rintro ⟨more', hbegins⟩
    obtain ⟨rfl, hslash⟩ := List.cons.inj hbegins
    cases body with
    | nil => cases hslash
    | cons e body =>
      obtain ⟨rfl, -⟩ := List.cons.inj hslash
      obtain ⟨rfl, -⟩ := List.cons.inj hbody
      exact hopen ⟨rfl, rfl⟩

/-! ### Items -/

/-- The width of an item is the length of one that the text begins with. -/
theorem exists_gapItem {cs : List Char} {n : Nat} (h : gapItemWidth cs = some n) :
    ∃ item rest, GapItem item rest ∧ cs = item ++ rest ∧ n = item.length := by
  cases cs with
  | nil => cases h
  | cons c rest =>
    rw [gapItemWidth] at h
    by_cases hspace : isSpace c = true
    · rw [if_pos hspace] at h
      cases h
      exact ⟨[c], rest, .spaces (by simp) (by simpa using hspace), rfl, rfl⟩
    · rw [if_neg hspace] at h
      unfold commentWidth at h
      split at h
      · next _ rest heq =>
        cases h
        refine ⟨'/' :: '/' :: rest.takeWhile (!endsLine ·), rest.dropWhile (!endsLine ·),
          .line ?_ ?_, ?_, rfl⟩
        · intro c hc
          simpa using List.mem_takeWhile_imp hc
        · intro c hc
          have hhead := List.head?_dropWhile_not (!endsLine ·) rest
          rw [Option.mem_def.1 hc] at hhead
          simpa using hhead
        · rw [heq, List.cons_append, List.cons_append, List.takeWhile_append_dropWhile]
      · next _ rest heq =>
        obtain ⟨m, hm, rfl⟩ := Option.map_eq_some_iff.1 h
        obtain ⟨body, more, rfl, hbody, rfl⟩ := exists_block_of_closeWidth hm
        refine ⟨'/' :: '*' :: (body ++ ['*', '/']), more, .block hbody, ?_, ?_⟩
        · rw [heq]
          simp
        · simp
      · cases h

theorem gapWidth_spaces {item : List Char} (h : ∀ c ∈ item, isSpace c = true)
    (rest : List Char) : gapWidth (item ++ rest) = item.length + gapWidth rest := by
  induction item with
  | nil => simp
  | cons c item ih =>
    rw [List.forall_mem_cons] at h
    have hitem : gapItemWidth (c :: (item ++ rest)) = some 1 := by rw [gapItemWidth, if_pos h.1]
    rw [List.cons_append, gapWidth_of_some hitem, List.drop_one, List.tail_cons, ih h.2,
      List.length_cons]
    omega

theorem takeWhile_line {body rest : List Char} (hbody : ∀ c ∈ body, endsLine c = false)
    (hrest : ∀ c ∈ rest.head?, endsLine c = true) :
    (body ++ rest).takeWhile (!endsLine ·) = body := by
  rw [List.takeWhile_append_of_pos (by simpa using hbody)]
  cases rest with
  | nil => simp
  | cons c rest =>
    have hc : endsLine c = true := hrest c rfl
    simp [hc]

theorem GapItem.gapWidth_append {item rest : List Char} (h : GapItem item rest) :
    gapWidth (item ++ rest) = item.length + gapWidth rest := by
  cases h with
  | spaces _ hspaces => exact gapWidth_spaces hspaces rest
  | @line body rest hbody hrest =>
    have hitem : gapItemWidth ('/' :: '/' :: body ++ rest) = some (body.length + 2) := by
      rw [List.cons_append, List.cons_append, gapItemWidth, if_neg (by decide), commentWidth,
        takeWhile_line hbody hrest]
    rw [gapWidth_of_some hitem]
    simp
  | @block body rest hbody =>
    have hitem : gapItemWidth ('/' :: '*' :: (body ++ ['*', '/']) ++ rest) =
        some (body.length + 4) := by
      have hclose := closeWidth_of_block hbody rest
      rw [List.cons_append, List.cons_append, List.append_assoc, gapItemWidth, if_neg (by decide),
        commentWidth]
      simp [hclose]
    rw [gapWidth_of_some hitem]
    simp

theorem GapItem.ne_nil {item rest : List Char} (h : GapItem item rest) : item ≠ [] := by
  cases h with
  | spaces hne _ => exact hne
  | line _ _ => simp
  | block _ => simp

theorem gapItemWidth_eq_none_iff {cs : List Char} :
    gapItemWidth cs = none ↔ ¬ StartsItem cs := by
  constructor
  · rintro hnone ⟨item, rest, hitem, rfl⟩
    have hwidth := hitem.gapWidth_append
    rw [gapWidth_of_none hnone] at hwidth
    have hpos := List.length_pos_iff.2 hitem.ne_nil
    omega
  · intro hstarts
    cases hwidth : gapItemWidth cs with
    | none => rfl
    | some n =>
      obtain ⟨item, rest, hitem, hcs, -⟩ := exists_gapItem hwidth
      exact absurd ⟨item, rest, hitem, hcs.symm⟩ hstarts

/-! ### Whole gaps -/

/-- The gap of a text is a gap, and no item follows it. -/
theorem exists_gap (cs : List Char) :
    ∃ gap rest, Gap gap rest ∧ ¬ StartsItem rest ∧ cs = gap ++ rest ∧ gapWidth cs = gap.length := by
  fun_induction gapWidth cs with
  | case1 cs hnone => exact ⟨[], cs, .nil, gapItemWidth_eq_none_iff.1 hnone, rfl, rfl⟩
  | case2 cs n hfirst ih =>
    obtain ⟨item, rest, hitem, rfl, rfl⟩ := exists_gapItem hfirst
    rw [List.drop_left] at ih
    obtain ⟨gap, rest, hgap, hstarts, rfl, hwidth⟩ := ih
    refine ⟨item ++ gap, rest, .cons hitem hgap, hstarts, by rw [List.append_assoc], ?_⟩
    rw [List.drop_left, hwidth, List.length_append]

/-- A gap that no item follows is the gap of the text. -/
theorem Gap.gapWidth_append {gap rest : List Char} (h : Gap gap rest) (hrest : ¬ StartsItem rest) :
    gapWidth (gap ++ rest) = gap.length := by
  induction h with
  | nil => exact gapWidth_of_none (gapItemWidth_eq_none_iff.2 hrest)
  | cons hitem _ ih =>
    rw [List.append_assoc, hitem.gapWidth_append, ih hrest, List.length_append]

theorem drop_gapWidth {gap rest : List Char} (h : gapWidth (gap ++ rest) = gap.length) :
    (gap ++ rest).drop (gapWidth (gap ++ rest)) = rest := by
  rw [h, List.drop_left]

end LetLang.Lexer
