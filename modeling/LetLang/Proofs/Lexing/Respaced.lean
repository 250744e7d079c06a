import LetLang.Proofs.Lexing.Broken
import LetLang.Text.Line
/-!
# Texts that differ in their spaces

Where one text has spaces, another may have others in their place, as long as some are left and the
line feeds stay as many. Tokens and comments are then the same, and so is the line that each token
begins on: a run of spaces separates as well as any other, and a `//` comment ends with its line.
-/
namespace LetLang.Lexer

/-- Spaces that may be replaced. A carriage return is none of them: it ends a comment, but no
line. -/
structure SpaceRun (run : List Char) : Prop where
  ne_nil : run ≠ []
  spaces : ∀ c ∈ run, isSpace c = true ∧ c ≠ '\r'

/-- Two texts that differ only in runs of spaces with equally many line feeds. -/
inductive Respaced : List Char → List Char → Prop
  | nil : Respaced [] []
  | char {cs cs'} (c : Char) (h : Respaced cs cs') : Respaced (c :: cs) (c :: cs')
  | run {run run' cs cs'} (hrun : SpaceRun run) (hrun' : SpaceRun run')
      (hbreaks : run.count '\n' = run'.count '\n') (h : Respaced cs cs') :
      Respaced (run ++ cs) (run' ++ cs')

variable {cs cs' text : List Char} {c : Char} {n n' m m' : Nat}

namespace SpaceRun

theorem isSpace_of_mem {run : List Char} (h : SpaceRun run) : ∀ c ∈ run, isSpace c = true :=
  fun c hc => (h.spaces c hc).1

theorem notMem {run : List Char} (h : SpaceRun run) (hc : isSpace c = false) : c ∉ run := by
  intro hmem
  rw [h.isSpace_of_mem c hmem] at hc
  cases hc

theorem endsLine_eq_false {before after : List Char} (h : SpaceRun (before ++ after))
    (hbreak : '\n' ∉ before) : ∀ c ∈ before, endsLine c = false := by
  intro c hc
  have hne : c ≠ '\n' := fun heq => hbreak (heq ▸ hc)
  simp [endsLine, hne, (h.spaces c (List.mem_append_left after hc)).2]

theorem takeWhile_of_notMem {run : List Char} (h : SpaceRun run) (hbreak : '\n' ∉ run)
    (cs : List Char) :
    (run ++ cs).takeWhile (!endsLine ·) = run ++ cs.takeWhile (!endsLine ·) := by
  rw [← List.append_nil run] at h
  have hline := h.endsLine_eq_false hbreak
  exact List.takeWhile_append_of_pos (by simpa using hline)

/-- The part of a run before its first line feed is what a `//` comment takes of it. -/
theorem exists_takeWhile {run : List Char} (h : SpaceRun run) (hbreak : '\n' ∈ run)
    (cs : List Char) :
    ∃ before after, run = before ++ after ∧ before.count '\n' = 0 ∧ SpaceRun after ∧
      (run ++ cs).takeWhile (!endsLine ·) = before := by
  obtain ⟨before, after, rfl, hbefore⟩ := List.eq_append_cons_of_mem hbreak
  refine ⟨before, '\n' :: after, rfl, List.count_eq_zero.2 hbefore, ⟨by simp, ?_⟩, ?_⟩
  · exact fun c hc => h.spaces c (List.mem_append_right before hc)
  · rw [List.append_assoc]
    exact takeWhile_line (h.endsLine_eq_false hbefore) (by simp [endsLine])

end SpaceRun

namespace Respaced

theorem append_left (text : List Char) (h : Respaced cs cs') :
    Respaced (text ++ cs) (text ++ cs') := by
  induction text with
  | nil => exact h
  | cons c text ih => exact .char c ih

theorem symm (h : Respaced cs cs') : Respaced cs' cs := by
  induction h with
  | nil => exact .nil
  | char c _ ih => exact .char c ih
  | run hrun hrun' hbreaks _ ih => exact .run hrun' hrun hbreaks.symm ih

theorem nil_inv (h : Respaced [] cs') : cs' = [] := by
  generalize hcs : ([] : List Char) = cs at h
  cases h with
  | nil => rfl
  | char c h => cases hcs
  | run hrun _ _ _ => exact absurd (List.append_eq_nil_iff.1 hcs.symm).1 hrun.ne_nil

/-- A character that is no space is no part of a run. -/
theorem cons_inv (h : Respaced (c :: cs) text) (hc : isSpace c = false) :
    ∃ cs', text = c :: cs' ∧ Respaced cs cs' := by
  generalize hcs : c :: cs = chars at h
  cases h with
  | nil => cases hcs
  | @char _ cs' _ h =>
    cases hcs
    exact ⟨cs', rfl, h⟩
  | @run run _ _ _ hrun _ _ _ =>
    obtain ⟨d, run, rfl⟩ := List.exists_cons_of_ne_nil hrun.ne_nil
    obtain ⟨rfl, -⟩ := List.cons.inj hcs
    exact absurd (List.mem_cons_self ..) (hrun.notMem hc)

theorem head?_iff (h : Respaced cs cs') (hc : isSpace c = false) :
    cs.head? = some c ↔ cs'.head? = some c := by
  constructor
  · intro hhead
    obtain ⟨rest, rfl⟩ := List.head?_eq_some_iff.1 hhead
    obtain ⟨rest', rfl, -⟩ := h.cons_inv hc
    rfl
  · intro hhead
    obtain ⟨rest, rfl⟩ := List.head?_eq_some_iff.1 hhead
    obtain ⟨rest', rfl, -⟩ := h.symm.cons_inv hc
    rfl

end Respaced

/-! ### Places that correspond -/

/-- After so many characters of either text the same line is reached, and what follows differs only
in its spaces. -/
structure Meets (n n' : Nat) (cs cs' : List Char) : Prop where
  rest : Respaced (cs.drop n) (cs'.drop n')
  breaks : (cs.take n).count '\n' = (cs'.take n').count '\n'

namespace Meets

theorem zero (h : Respaced cs cs') : Meets 0 0 cs cs' :=
  ⟨h, rfl⟩

theorem add (h : Meets n n' cs cs') (hmore : Meets m m' (cs.drop n) (cs'.drop n')) :
    Meets (n + m) (n' + m') cs cs' := by
  refine ⟨?_, ?_⟩
  · rw [← List.drop_drop, ← List.drop_drop]
    exact hmore.rest
  · rw [List.take_add, List.take_add, List.count_append, List.count_append, h.breaks, hmore.breaks]

theorem append {run run' : List Char} (h : Meets n n' cs cs')
    (hbreaks : run.count '\n' = run'.count '\n') :
    Meets (run.length + n) (run'.length + n') (run ++ cs) (run' ++ cs') := by
  refine ⟨?_, ?_⟩
  · rw [List.drop_length_add_append, List.drop_length_add_append]
    exact h.rest
  · rw [List.take_length_add_append, List.take_length_add_append, List.count_append,
      List.count_append, hbreaks, h.breaks]

theorem cons (c : Char) (h : Meets n n' cs cs') : Meets (n + 1) (n' + 1) (c :: cs) (c :: cs') := by
  have happend := h.append (rfl : [c].count '\n' = [c].count '\n')
  rwa [List.length_singleton, Nat.add_comm 1 n, Nat.add_comm 1 n'] at happend

end Meets

/-! ### Comments -/

/-- A `//` comment goes through runs of spaces up to the first line feed in one. -/
theorem Respaced.meets_line (h : Respaced cs cs') :
    Meets (cs.takeWhile (!endsLine ·)).length (cs'.takeWhile (!endsLine ·)).length cs cs' := by
  induction h with
  | nil => exact .zero .nil
  | @char cs cs' c h ih =>
    cases hc : endsLine c with
    | true =>
      simp only [List.takeWhile_cons, hc, Bool.not_true, Bool.false_eq_true, if_false]
      exact .zero (.char c h)
    | false =>
      simp only [List.takeWhile_cons, hc, Bool.not_false, if_true, List.length_cons]
      exact ih.cons c
  | @run run run' cs cs' hrun hrun' hbreaks h ih =>
    by_cases hbreak : '\n' ∈ run
    · have hbreak' : '\n' ∈ run' := by
        rwa [← List.count_pos_iff, ← hbreaks, List.count_pos_iff]
      obtain ⟨before, after, rfl, hbefore, hafter, htake⟩ := hrun.exists_takeWhile hbreak cs
      obtain ⟨before', after', rfl, hbefore', hafter', htake'⟩ :=
        hrun'.exists_takeWhile hbreak' cs'
      -- The comment ends inside of the runs, and what is left of them begins with a line feed.
      rw [List.count_append, List.count_append, hbefore, hbefore', Nat.zero_add,
        Nat.zero_add] at hbreaks
      rw [htake, htake', List.append_assoc, List.append_assoc]
      exact (Meets.zero (.run hafter hafter' hbreaks h)).append (hbefore.trans hbefore'.symm)
    · have hbreak' : '\n' ∉ run' := by
        rwa [← List.count_eq_zero, ← hbreaks, List.count_eq_zero]
      rw [hrun.takeWhile_of_notMem hbreak, hrun'.takeWhile_of_notMem hbreak', List.length_append,
        List.length_append]
      exact ih.append hbreaks

theorem closeWidth_cons (h : ¬ (c = '*' ∧ cs.head? = some '/')) :
    closeWidth (c :: cs) = (closeWidth cs).map (· + 1) := by
  cases cs with
  | nil => rfl
  | cons d cs =>
    rw [closeWidth, if_neg]
    simpa using h

theorem closeWidth_append_of_notMem {run : List Char} (h : '*' ∉ run) (cs : List Char) :
    closeWidth (run ++ cs) = (closeWidth cs).map (run.length + ·) := by
  induction run with
  | nil => simp
  | cons c run ih =>
    rw [List.mem_cons, not_or] at h
    rw [List.cons_append, closeWidth_cons (fun hclose => h.1 hclose.1.symm), ih h.2,
      Option.map_map]
    congr 1
    funext n
    simp only [Function.comp_apply, List.length_cons]
    omega

theorem rel_map {R S : Nat → Nat → Prop} {width width' : Option Nat} {f f' : Nat → Nat}
    (h : Option.Rel R width width') (hmap : ∀ n n', R n n' → S (f n) (f' n')) :
    Option.Rel S (width.map f) (width'.map f') := by
  cases h with
  | none => exact .none
  | some hn => exact .some (hmap _ _ hn)

/-- A comment that is closed in one text is closed in the other, at the corresponding place. -/
theorem Respaced.meets_block (h : Respaced cs cs') :
    Option.Rel (Meets · · cs cs') (closeWidth cs) (closeWidth cs') := by
  induction h with
  | nil => exact .none
  | @char cs cs' c h ih =>
    -- A run is not empty in either text, so that no star comes before a slash in only one of them.
    by_cases hclose : c = '*' ∧ cs.head? = some '/'
    · obtain ⟨rfl, hhead⟩ := hclose
      obtain ⟨rest, rfl⟩ := List.head?_eq_some_iff.1 hhead
      obtain ⟨rest', rfl, hrest⟩ := h.cons_inv (by decide)
      exact .some (((Meets.zero hrest).cons '/').cons '*')
    · have hclose' : ¬ (c = '*' ∧ cs'.head? = some '/') := by
        rwa [← h.head?_iff (by decide)]
      rw [closeWidth_cons hclose, closeWidth_cons hclose']
      exact rel_map ih fun _ _ hmeets => hmeets.cons c
  | @run run run' cs cs' hrun hrun' hbreaks h ih =>
    rw [closeWidth_append_of_notMem (hrun.notMem (by decide)),
      closeWidth_append_of_notMem (hrun'.notMem (by decide))]
    exact rel_map ih fun _ _ hmeets => hmeets.append hbreaks

theorem commentWidth_eq_none (hline : ¬ (c = '/' ∧ cs.head? = some '/'))
    (hblock : ¬ (c = '/' ∧ cs.head? = some '*')) : commentWidth (c :: cs) = none := by
  unfold commentWidth
  split
  · next heq =>
    obtain ⟨rfl, rfl⟩ := List.cons.inj heq
    exact absurd ⟨rfl, rfl⟩ hline
  · next heq =>
    obtain ⟨rfl, rfl⟩ := List.cons.inj heq
    exact absurd ⟨rfl, rfl⟩ hblock
  · rfl

/-- A comment of one text is one of the other, up to the corresponding place. -/
theorem Respaced.meets_comment (h : Respaced cs cs') (c : Char) :
    Option.Rel (Meets · · (c :: cs) (c :: cs')) (commentWidth (c :: cs))
      (commentWidth (c :: cs')) := by
  by_cases hline : c = '/' ∧ cs.head? = some '/'
  · obtain ⟨rfl, hhead⟩ := hline
    obtain ⟨rest, rfl⟩ := List.head?_eq_some_iff.1 hhead
    obtain ⟨rest', rfl, hrest⟩ := h.cons_inv (by decide)
    exact .some ((hrest.meets_line.cons '/').cons '/')
  by_cases hblock : c = '/' ∧ cs.head? = some '*'
  · obtain ⟨rfl, hhead⟩ := hblock
    obtain ⟨rest, rfl⟩ := List.head?_eq_some_iff.1 hhead
    obtain ⟨rest', rfl, hrest⟩ := h.cons_inv (by decide)
    exact rel_map hrest.meets_block fun _ _ hmeets => (hmeets.cons '*').cons '/'
  · rw [commentWidth_eq_none hline hblock]
    rw [h.head?_iff (by decide)] at hline hblock
    rw [commentWidth_eq_none hline hblock]
    exact .none

/-! ### Gaps -/

/-- The gaps that two texts begin with end at corresponding places. -/
theorem Respaced.meets_gap (h : Respaced cs cs') : Meets (gapWidth cs) (gapWidth cs') cs cs' := by
  -- What follows a comment is no part of `h` itself, so that the induction is on the length.
  induction hlength : cs.length using Nat.strong_induction_on generalizing cs cs' with
  | _ length ih =>
    subst hlength
    cases h with
    | nil =>
      rw [gapWidth_of_none rfl]
      exact .zero .nil
    | @char cs cs' c h =>
      cases hc : isSpace c with
      | true =>
        have hitem : ∀ rest, gapItemWidth (c :: rest) = some 1 := fun rest => if_pos hc
        rw [gapWidth_of_some (hitem cs), gapWidth_of_some (hitem cs')]
        exact ((Meets.zero h).cons c).add (ih cs.length (by simp) h rfl)
      | false =>
        have hitem : ∀ rest, gapItemWidth (c :: rest) = commentWidth (c :: rest) :=
          fun rest => if_neg (by simp [hc])
        have hcomment := h.meets_comment c
        rw [← hitem, ← hitem] at hcomment
        generalize hwidth : gapItemWidth (c :: cs) = width at hcomment
        generalize hwidth' : gapItemWidth (c :: cs') = width' at hcomment
        cases hcomment with
        | none =>
          rw [gapWidth_of_none hwidth, gapWidth_of_none hwidth']
          exact .zero (.char c h)
        | @some n n' hmeets =>
          rw [gapWidth_of_some hwidth, gapWidth_of_some hwidth']
          have hpos := (gapItemWidth_pos hwidth).1
          exact hmeets.add (ih _ (by simp; omega) hmeets.rest rfl)
    | @run run run' cs cs' hrun hrun' hbreaks h =>
      rw [gapWidth_spaces hrun.isSpace_of_mem, gapWidth_spaces hrun'.isSpace_of_mem]
      have hpos := List.length_pos_iff.2 hrun.ne_nil
      exact (ih cs.length (by simp; omega) h rfl).append hbreaks

/-! ### Tokens -/

/-- What begins with a text without spaces begins with it however spaced. -/
theorem Respaced.meets_text (h : Respaced cs cs') (htext : ∀ c ∈ text, isSpace c = false)
    (hbegins : text <+: cs) : text <+: cs' ∧ Meets text.length text.length cs cs' := by
  induction text generalizing cs cs' with
  | nil => exact ⟨List.nil_prefix, .zero h⟩
  | cons c text ih =>
    rw [List.forall_mem_cons] at htext
    obtain ⟨rest, rfl⟩ := hbegins
    obtain ⟨cs', rfl, hrest⟩ := h.cons_inv htext.1
    obtain ⟨hbegins', hmeets⟩ := ih hrest htext.2 (List.prefix_append text rest)
    exact ⟨(List.cons_prefix_cons).2 ⟨rfl, hbegins'⟩, hmeets.cons c⟩

theorem Munched.respaced {kind : Kind} (h : Munched cs kind text) (hcs : Respaced cs cs') :
    Munched cs' kind text := by
  refine ⟨(hcs.meets_text (Kind.isSpace_of_mem_language h.mem).2 h.begins).1, h.mem, ?_, h.first⟩
  intro other text' hmem hbegins
  have hbegins' := (hcs.symm.meets_text (Kind.isSpace_of_mem_language hmem).2 hbegins).1
  exact h.longest other text' hmem hbegins'

theorem Respaced.longest_eq (h : Respaced cs cs') : longest cs = longest cs' := by
  rcases longest_cases cs with hnone | ⟨kind, hpos, hlongest⟩
  · rcases longest_cases cs' with hnone' | ⟨kind, hpos, hlongest⟩
    · rw [hnone, hnone']
    · exact ((munched_of_longest hlongest hpos).respaced h.symm).longest_eq.trans
        (munched_of_longest hlongest hpos).longest_eq.symm
  · exact (munched_of_longest hlongest hpos).longest_eq.trans
      ((munched_of_longest hlongest hpos).respaced h).longest_eq.symm

theorem isSpace_of_head?_drop_gapWidth (h : (cs.drop (gapWidth cs)).head? = some c) :
    isSpace c = false := by
  obtain ⟨gap, rest, -, hstarts, rfl, hwidth⟩ := exists_gap cs
  rw [drop_gapWidth hwidth] at h
  obtain ⟨rest, rfl⟩ := List.head?_eq_some_iff.1 h
  have hnone := gapItemWidth_eq_none_iff.2 hstarts
  rw [gapItemWidth] at hnone
  split at hnone
  · cases hnone
  · next hspace => simpa using hspace

/-- The token or the fault that one text begins with is that of the other, up to its place. -/
theorem Respaced.scan_eq (h : Respaced cs cs') (hhead : ∀ c, cs.head? = some c → isSpace c = false)
    (source source' : String) (pos pos' : Nat) :
    scan source' pos' cs' =
      ((scan source pos cs).map (Token.placed fun _ => pos')).mapError
        (Fault.placed (fun _ => pos') source') := by
  cases cs with
  | nil =>
    obtain rfl := h.nil_inv
    rfl
  | cons c cs =>
    have hlongest := h.longest_eq
    obtain ⟨cs', rfl, hcs⟩ := h.cons_inv (hhead c rfl)
    rw [scan, scan, ← hlongest]
    rcases hfound : longest (c :: cs) with ⟨kind, _ | width⟩
    · rfl
    · have htext : cs.take width = cs'.take width := by
        have hmunched := munched_of_longest hfound (Nat.succ_pos width)
        have hbegins := (hmunched.respaced h).begins
        have hle := longest_le (c :: cs)
        rw [hfound, List.length_cons] at hle
        rw [List.take_succ_cons, List.cons_prefix_cons, List.prefix_iff_eq_take,
          List.length_take, Nat.min_eq_left (Nat.le_of_succ_le_succ hle)] at hbegins
        exact hbegins.2
      dsimp only
      split
      · rfl
      · rw [htext]
        rfl

/-! ### Lines of tokens -/

/-- The index of the line that an offset is on. -/
def lineAt (source : String) (pos : Nat) : Nat :=
  (Text.locate source pos).index

/-- What was read, with lines in place of offsets and without the source. -/
def Feed.onLines (source : String) (feed : Feed) : Feed :=
  { tokens := feed.tokens.map (Token.placed (lineAt source))
    ending := feed.ending.map (Fault.placed (lineAt source) "") }

theorem Feed.onLines_cons (source : String) (token : Token) (feed : Feed) :
    (feed.cons token).onLines source =
      (feed.onLines source).cons (token.placed (lineAt source)) :=
  rfl

theorem lineAt_eq (source : String) (pos : Nat) :
    lineAt source pos = (source.toList.take pos).count '\n' := by
  rw [lineAt, Text.locate, Text.clamp]
  dsimp only
  rw [Int.toNat_natCast, ← List.take_take, List.take_length]

theorem Meets.lineAt_eq {source source' : String} (h : Meets n n' source.toList source'.toList) :
    lineAt source n = lineAt source' n' := by
  rw [Lexer.lineAt_eq, Lexer.lineAt_eq, h.breaks]

/-- Where the gap after an offset ends. -/
def codeStart (source : String) (pos : Nat) : Nat :=
  pos + gapWidth (source.toList.drop pos)

theorem drop_codeStart (source : String) (pos : Nat) :
    source.toList.drop (codeStart source pos) =
      (source.toList.drop pos).drop (gapWidth (source.toList.drop pos)) := by
  rw [codeStart, List.drop_drop]

/-- What is read from an offset of the source on. -/
def feedAt (source : String) (pos : Nat) : Feed :=
  tokensFrom source pos (source.toList.drop pos)

/-- The token or the fault that comes after an offset of the source and the gap there. -/
def scanAt (source : String) (pos : Nat) : Except Fault Token :=
  scan source (codeStart source pos) (source.toList.drop (codeStart source pos))

theorem feedAt_eq (source : String) (pos : Nat) :
    feedAt source pos =
      match scanAt source pos with
      | .error fault => { tokens := [], ending := some fault }
      | .ok token =>
        if token.kind = .eof then { tokens := [token], ending := none }
        else (feedAt source token.stop).cons token := by
  cases hscan : scanAt source pos with
  | error fault =>
    rw [scanAt, drop_codeStart] at hscan
    exact tokensFrom_of_error hscan
  | ok token =>
    have hpos := scan_pos hscan
    rw [scanAt, drop_codeStart] at hscan
    dsimp only
    split
    · next hkind => exact tokensFrom_of_eof hscan hkind
    · next hkind =>
      rw [feedAt, tokensFrom_of_ok hscan hkind, feedAt, ← drop_codeStart, List.drop_drop,
        Token.stop, hpos]

/-- At corresponding places the same token comes next, or the same fault. -/
theorem Meets.scanAt_eq {source source' : String} (h : Meets n n' source.toList source'.toList) :
    Meets (codeStart source n) (codeStart source' n') source.toList source'.toList ∧
      scanAt source' n' =
        ((scanAt source n).map (Token.placed fun _ => codeStart source' n')).mapError
          (Fault.placed (fun _ => codeStart source' n') source') := by
  have hcode : Meets (codeStart source n) (codeStart source' n') source.toList source'.toList :=
    h.add h.rest.meets_gap
  refine ⟨hcode, hcode.rest.scan_eq ?_ source source' _ _⟩
  intro c hhead
  rw [drop_codeStart] at hhead
  exact isSpace_of_head?_drop_gapWidth hhead

/-- After the same token the places correspond again, and less is left. -/
theorem Meets.stop {source source' : String} {token : Token}
    (h : Meets n n' source.toList source'.toList) (hpos : token.pos = n)
    (hmunched : Munched (source.toList.drop n) token.kind token.text.toList) :
    Meets token.stop (token.placed fun _ => n').stop source.toList source'.toList ∧
      (source.toList.drop token.stop).length < (source.toList.drop n).length := by
  have hspaces := Kind.isSpace_of_mem_language hmunched.mem
  have htext := (h.rest.meets_text hspaces.2 hmunched.begins).2
  rw [String.length_toList] at htext
  have hle := hmunched.begins.length_le
  have hne := List.length_pos_iff.2 hspaces.1
  refine ⟨?_, ?_⟩
  · rw [Token.stop, hpos]
    exact h.add htext
  · simp only [Token.stop, List.length_drop, String.length_toList] at hle hne ⊢
    omega

/-- From corresponding places on the same is read, on the same lines. -/
theorem Meets.onLines_feedAt {source source' : String}
    (h : Meets n n' source.toList source'.toList) :
    (feedAt source n).onLines source = (feedAt source' n').onLines source' := by
  induction hlength : (source.toList.drop n).length using Nat.strong_induction_on
    generalizing n n' with
  | _ length ih =>
    subst hlength
    obtain ⟨hcode, hscan'⟩ := h.scanAt_eq
    have hline := hcode.lineAt_eq
    rw [feedAt_eq, feedAt_eq, hscan']
    cases hscan : scanAt source n with
    | error fault =>
      rcases scan_error hscan with ⟨c, rest, -, rfl, -⟩ | ⟨digits, rest, -, rfl, -⟩
      · simp [Feed.onLines, Fault.placed, hline, Except.map, Except.mapError]
      · rfl
    | ok token =>
      have hpos := scan_pos hscan
      have hplaced : token.placed (lineAt source) =
          (token.placed fun _ => codeStart source' n').placed (lineAt source') := by
        simp [Token.placed, hpos, hline]
      have hkinds : (token.placed fun _ => codeStart source' n').kind = token.kind := rfl
      dsimp only [Except.map, Except.mapError]
      rw [hkinds]
      by_cases hkind : token.kind = .eof
      · rw [if_pos hkind, if_pos hkind, Feed.onLines, Feed.onLines, List.map_singleton,
          List.map_singleton, hplaced]
        rfl
      · obtain ⟨hstop, hlt⟩ := hcode.stop hpos (munched_of_scan hscan hkind).1
        have hle : (source.toList.drop (codeStart source n)).length ≤
            (source.toList.drop n).length := by
          rw [drop_codeStart]
          exact (List.drop_sublist _ _).length_le
        rw [if_neg hkind, if_neg hkind, Feed.onLines_cons, Feed.onLines_cons, hplaced,
          ih _ (Nat.lt_of_lt_of_le hlt hle) hstop rfl]

/-! ### What is seen of a text -/

/-- A token as it is seen: kind, text, value, and the index of the line that it begins on. -/
def seen (source : String) (token : Token) : Kind × String × Option Token.Value × Nat :=
  (token.kind, token.text, token.value, lineAt source token.pos)

/-- Reading the source fails at a character on the line with the index. -/
def FailsAt (source : String) (c : Char) (index : Nat) : Prop :=
  ∃ pos, (tokenize source).ending = some (.language (.unexpectedCharacter source pos c)) ∧
    lineAt source pos = index

theorem failsAt_iff {source : String} {index : Nat} :
    FailsAt source c index ↔
      ((tokenize source).onLines source).ending =
        some (.language (.unexpectedCharacter "" index c)) := by
  rw [FailsAt, Feed.onLines]
  cases hending : (tokenize source).ending with
  | none => simp
  | some fault =>
    rcases (broken_tokensFrom source 0 source.toList hending).fault_eq with
      ⟨place, char, rfl⟩ | ⟨digits, rfl, -⟩
    · simp only [Option.some.injEq, Fault.language.injEq, LanguageError.unexpectedCharacter.injEq,
        Option.map_some, Fault.placed, true_and]
      constructor
      · rintro ⟨pos, ⟨rfl, rfl⟩, rfl⟩
        exact ⟨rfl, rfl⟩
      · rintro ⟨rfl, rfl⟩
        exact ⟨place, ⟨rfl, rfl⟩, rfl⟩
    · simp [Fault.placed]

theorem ending_onLines_eq_numeralTooLong_iff {source : String} {digits : Nat} :
    ((tokenize source).onLines source).ending = some (.numeralTooLong digits) ↔
      (tokenize source).ending = some (.numeralTooLong digits) := by
  rw [Feed.onLines]
  cases hending : (tokenize source).ending with
  | none => simp
  | some fault =>
    rcases (broken_tokensFrom source 0 source.toList hending).fault_eq with
      ⟨place, char, rfl⟩ | ⟨digits, rfl, -⟩ <;> simp [Fault.placed]

theorem ending_onLines_eq_none_iff {source : String} :
    ((tokenize source).onLines source).ending = none ↔ (tokenize source).ending = none :=
  Option.map_eq_none_iff

theorem map_seen (source : String) :
    (tokenize source).tokens.map (seen source) =
      ((tokenize source).onLines source).tokens.map fun token =>
        (token.kind, token.text, token.value, token.pos) := by
  rw [Feed.onLines, List.map_map]
  rfl

/-- Two sources of the same tokens on the same lines, which end or fail alike after them. -/
structure ReadAlike (source source' : String) : Prop where
  tokens_eq : (tokenize source).tokens.map (seen source) =
    (tokenize source').tokens.map (seen source')
  ends_iff : (tokenize source).ending = none ↔ (tokenize source').ending = none
  failsAt_iff : ∀ c index, FailsAt source c index ↔ FailsAt source' c index
  numeralTooLong_iff : ∀ digits, (tokenize source).ending = some (.numeralTooLong digits) ↔
    (tokenize source').ending = some (.numeralTooLong digits)

/-- A text is read alike however it is spaced. -/
theorem Respaced.readAlike {source source' : String} (h : Respaced source.toList source'.toList) :
    ReadAlike source source' := by
  have hsame := (Meets.zero h).onLines_feedAt
  rw [show feedAt source 0 = tokenize source from rfl,
    show feedAt source' 0 = tokenize source' from rfl] at hsame
  refine ⟨?_, ?_, ?_, ?_⟩
  · rw [map_seen, map_seen, hsame]
  · rw [← ending_onLines_eq_none_iff, hsame, ending_onLines_eq_none_iff]
  · intro c index
    rw [Lexer.failsAt_iff, Lexer.failsAt_iff, hsame]
  · intro digits
    rw [← ending_onLines_eq_numeralTooLong_iff, hsame, ending_onLines_eq_numeralTooLong_iff]

end LetLang.Lexer
