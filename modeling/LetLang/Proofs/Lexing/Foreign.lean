import LetLang.Proofs.Lexing.Broken
import LetLang.Proofs.Lexing.Layouts
/-!
# Foreign characters

Which texts cannot be read is a matter of single characters: apart from comments, a text is code,
and reading it stops at the first character of the code that no token and no gap has. To tell code
and comments from each other takes no tokens, only a scan from left to right.
-/
namespace LetLang.Lexer

/-! ### Code and comments -/

/-- What a scan from left to right is in: code, a comment to the end of the line, or a comment that
is closed. -/
inductive Mode where
  | code | line | block
  deriving DecidableEq, Repr

/-- The characters of code and their offsets. A `//` begins a comment before the end of the line,
and a `/*` one through the first `*/` after it, if there is any. -/
def codeFrom : Nat → Mode → List Char → List (Nat × Char)
  | _, _, [] => []
  | pos, .code, [c] => [(pos, c)]
  | pos, .code, c :: d :: rest =>
    if c = '/' ∧ d = '/' then codeFrom (pos + 2) .line rest
    else if c = '/' ∧ d = '*' ∧ ['*', '/'] <:+: rest then codeFrom (pos + 2) .block rest
    else (pos, c) :: codeFrom (pos + 1) .code (d :: rest)
  | pos, .line, c :: rest =>
    if c = '\r' ∨ c = '\n' then (pos, c) :: codeFrom (pos + 1) .code rest
    else codeFrom (pos + 1) .line rest
  | _, .block, [_] => []
  | pos, .block, c :: d :: rest =>
    if c = '*' ∧ d = '/' then codeFrom (pos + 2) .code rest
    else codeFrom (pos + 1) .block (d :: rest)

/-- The characters that code may have. -/
def isNative (c : Char) : Bool :=
  ('a' ≤ c && c ≤ 'z') || ('A' ≤ c && c ≤ 'Z') || ('0' ≤ c && c ≤ '9') ||
    c ∈ "_+-*/()=<>|, \t\n\r".toList

/-- The character at this offset of the text is code, and code may not have it. -/
def ForeignAt (text : String) (pos : Nat) (c : Char) : Prop :=
  (pos, c) ∈ codeFrom 0 .code text.toList ∧ isNative c = false

/-- The text, from an offset of the source on, begins with gaps and tokens, however many digits the
numerals have. -/
inductive Munches : Nat → List Char → List Token → Prop
  | nil {pos cs} : Munches pos cs []
  | token {pos gap rest tokens} {token : Token} (hgap : Gap gap (token.text.toList ++ rest))
      (hstarts : ¬ StartsItem (token.text.toList ++ rest)) (hpos : token.pos = pos + gap.length)
      (hmunched : Munched (token.text.toList ++ rest) token.kind token.text.toList)
      (hrest : Munches token.stop rest tokens) :
      Munches pos (gap ++ (token.text.toList ++ rest)) (token :: tokens)

/-- Before the offset stands a numeral with too many digits. -/
def LongNumeralBefore (text : String) (pos : Nat) : Prop :=
  ∃ tokens, Munches 0 text.toList tokens ∧ ∃ token ∈ tokens,
    token.kind = .int ∧ Numeral.digitLimit < token.text.length ∧ token.pos < pos

/-! ### The scan over gaps and tokens -/

variable {pos : Nat} {c : Char} {cs gap rest text : List Char}

/-- The foreign characters in the order of the text. -/
def foreignFrom (pos : Nat) (cs : List Char) : List (Nat × Char) :=
  (codeFrom pos .code cs).filter fun found => !isNative found.2

theorem le_of_mem_codeFrom {mode : Mode} {found : Nat × Char} (h : found ∈ codeFrom pos mode cs) :
    pos ≤ found.1 := by
  fun_induction codeFrom pos mode cs with
  | case1 | case8 => simp at h
  | case2 => simp_all
  | case3 _ _ _ _ _ ih | case4 _ _ _ _ _ _ ih | case7 _ _ _ _ ih | case9 _ _ _ _ _ ih
  | case10 _ _ _ _ _ ih =>
    have := ih h
    omega
  | case5 _ _ _ _ _ _ ih | case6 _ _ _ _ ih =>
    rcases List.mem_cons.1 h with rfl | h
    · simp
    · have := ih h
      omega

/-- A text without a close is what `closeWidth` finds none in. -/
theorem closeWidth_eq_none_iff : closeWidth cs = none ↔ ¬ ['*', '/'] <:+: cs := by
  constructor
  · intro hnone hclose
    fun_induction closeWidth cs with
    | case1 => simp at hclose
    | case2 => simp [List.infix_cons_iff] at hclose
    | case3 => cases hnone
    | case4 c d rest hopen ih =>
      rcases List.infix_cons_iff.1 hclose with hclose | hclose
      · have hpair : '*' = c ∧ '/' = d := by simpa using hclose
        exact hopen ⟨hpair.1.symm, hpair.2.symm⟩
      · exact ih (Option.map_eq_none_iff.1 hnone) hclose
  · intro hclose
    cases hwidth : closeWidth cs with
    | none => rfl
    | some n =>
      obtain ⟨body, rest, rfl, -⟩ := exists_block_of_closeWidth hwidth
      exact absurd ⟨body, rest, by simp⟩ hclose

theorem startsItem_of_line (rest : List Char) : StartsItem ('/' :: '/' :: rest) := by
  by_contra h
  rw [← gapItemWidth_eq_none_iff, gapItemWidth, if_neg (by decide), commentWidth] at h
  cases h

theorem startsItem_of_block (h : ['*', '/'] <:+: rest) : StartsItem ('/' :: '*' :: rest) := by
  by_contra hstarts
  rw [← gapItemWidth_eq_none_iff, gapItemWidth, if_neg (by decide), commentWidth,
    Option.map_eq_none_iff, closeWidth_eq_none_iff] at hstarts
  exact hstarts h

/-- A character that begins no comment is code. -/
theorem codeFrom_cons (h : c = '/' → ¬ StartsItem (c :: rest)) :
    codeFrom pos .code (c :: rest) = (pos, c) :: codeFrom (pos + 1) .code rest := by
  cases rest with
  | nil => rfl
  | cons d rest =>
    have hline : ¬ (c = '/' ∧ d = '/') := by
      rintro ⟨rfl, rfl⟩
      exact h rfl (startsItem_of_line rest)
    have hblock : ¬ (c = '/' ∧ d = '*' ∧ ['*', '/'] <:+: rest) := by
      rintro ⟨rfl, rfl, hclose⟩
      exact h rfl (startsItem_of_block hclose)
    rw [codeFrom, if_neg hline, if_neg hblock]

theorem foreignFrom_cons (h : c = '/' → ¬ StartsItem (c :: rest)) (hc : isNative c = true) :
    foreignFrom pos (c :: rest) = foreignFrom (pos + 1) rest := by
  rw [foreignFrom, codeFrom_cons h]
  simp [foreignFrom, hc]

theorem foreignFrom_append (h : ∀ c ∈ text, c ≠ '/' ∧ isNative c = true) :
    foreignFrom pos (text ++ rest) = foreignFrom (pos + text.length) rest := by
  induction text generalizing pos with
  | nil => rfl
  | cons c text ih =>
    rw [List.forall_mem_cons] at h
    rw [List.cons_append, foreignFrom_cons (fun hslash => absurd hslash h.1.1) h.1.2, ih h.2,
      List.length_cons, Nat.add_right_comm, Nat.add_assoc]

/-! ### Comments -/

theorem codeFrom_line (hbody : ∀ c ∈ text, endsLine c = false)
    (hrest : ∀ c ∈ rest.head?, endsLine c = true) :
    codeFrom pos .line (text ++ rest) = codeFrom (pos + text.length) .code rest := by
  induction text generalizing pos with
  | nil =>
    cases rest with
    | nil => rfl
    | cons c rest =>
      have hends : c = '\r' ∨ c = '\n' := by
        have := hrest c rfl
        simpa [endsLine, or_comm] using this
      rw [List.nil_append, codeFrom, if_pos hends, codeFrom_cons]
      · rfl
      · rintro rfl
        simp at hends
  | cons c text ih =>
    rw [List.forall_mem_cons] at hbody
    have hinside : ¬ (c = '\r' ∨ c = '\n') := by
      simpa [endsLine, and_comm] using hbody.1
    rw [List.cons_append, codeFrom, if_neg hinside, ih hbody.2, List.length_cons,
      Nat.add_right_comm, Nat.add_assoc]

theorem codeFrom_block (hbody : ¬ ['*', '/'] <:+: text) :
    codeFrom pos .block (text ++ '*' :: '/' :: rest) =
      codeFrom (pos + text.length + 2) .code rest := by
  induction text generalizing pos with
  | nil => simp [codeFrom]
  | cons c text ih =>
    have htail : ¬ ['*', '/'] <:+: text := fun hin => hbody (List.infix_cons hin)
    have hnext : codeFrom pos .block (c :: (text ++ '*' :: '/' :: rest)) =
        codeFrom (pos + 1) .block (text ++ '*' :: '/' :: rest) := by
      cases text with
      | nil => simp [codeFrom]
      | cons d text =>
        have hopen : ¬ (c = '*' ∧ d = '/') := by
          rintro ⟨rfl, rfl⟩
          exact hbody ⟨[], text, rfl⟩
        rw [List.cons_append, codeFrom, if_neg hopen]
    rw [List.cons_append, hnext, ih htail, List.length_cons, Nat.add_right_comm pos,
      Nat.add_assoc pos]

theorem GapItem.foreignFrom_append {item : List Char} (h : GapItem item rest) :
    foreignFrom pos (item ++ rest) = foreignFrom (pos + item.length) rest := by
  cases h with
  | spaces _ hspaces =>
    apply Lexer.foreignFrom_append
    intro c hc
    have hspace := hspaces c hc
    simp only [isSpace, Bool.or_eq_true, decide_eq_true_eq] at hspace
    rcases hspace with ((rfl | rfl) | rfl) | rfl <;> decide
  | @line body _ hbody hrest =>
    have hstart : codeFrom pos .code ('/' :: '/' :: (body ++ rest)) =
        codeFrom (pos + 2) .line (body ++ rest) := by
      simp [codeFrom]
    have hlength : pos + 2 + body.length = pos + ('/' :: '/' :: body).length := by
      simp only [List.length_cons]
      omega
    rw [List.cons_append, List.cons_append, foreignFrom, hstart, codeFrom_line hbody hrest, hlength,
      foreignFrom]
  | @block body _ hbody =>
    have hclose : ['*', '/'] <:+: body ++ '*' :: '/' :: rest := ⟨body, rest, by simp⟩
    have hstart : codeFrom pos .code ('/' :: '*' :: (body ++ '*' :: '/' :: rest)) =
        codeFrom (pos + 2) .block (body ++ '*' :: '/' :: rest) := by
      simp [codeFrom, hclose]
    have hlength : pos + 2 + body.length + 2 =
        pos + ('/' :: '*' :: (body ++ ['*', '/'])).length := by
      simp only [List.length_cons, List.length_append, List.length_nil]
      omega
    rw [List.cons_append, List.cons_append, List.append_assoc, List.cons_append, List.cons_append,
      List.nil_append, foreignFrom, hstart, codeFrom_block hbody, hlength, foreignFrom]

theorem Gap.foreignFrom_append (h : Gap gap rest) :
    foreignFrom pos (gap ++ rest) = foreignFrom (pos + gap.length) rest := by
  induction h generalizing pos with
  | nil => rfl
  | cons hitem _ ih =>
    rw [List.append_assoc, hitem.foreignFrom_append, ih, List.length_append, Nat.add_assoc]

/-! ### Tokens -/

theorem isNative_of_isWordPart (h : isWordPart c = true) : isNative c = true := by
  simp only [isWordPart, isWordStart, Numeral.isDigit, Bool.or_eq_true, decide_eq_true_eq] at h
  simp only [isNative, Bool.or_eq_true]
  rcases h with ((h | h) | rfl) | h
  · exact .inl (.inl (.inl h))
  · exact .inl (.inl (.inr h))
  · exact .inr (by decide)
  · exact .inl (.inr h)

/-- The characters of tokens are native, and a slash is only ever the first of them. -/
theorem isNative_of_mem_language {kind : Kind} (h : text ∈ kind.language) :
    (∀ c ∈ text, isNative c = true) ∧ '/' ∉ text.tail := by
  by_cases hkind : kind = .int ∨ kind = .ident
  · have hparts := (Kind.isWordPart_of_mem_language h hkind).2
    refine ⟨fun c hc => isNative_of_isWordPart (hparts c hc), fun hslash => ?_⟩
    exact absurd (hparts _ (List.mem_of_mem_tail hslash)) (by decide)
  · rw [not_or] at hkind
    have hfixed := (Kind.mem_language_of_fixedText hkind.1 hkind.2).1 h
    have hall : ∀ kind ∈ Kind.all, kind.fixedText.all fun text =>
        text.toList.all isNative && !text.toList.tail.contains '/' := by
      decide +kernel
    have htext := hall kind (Kind.mem_all kind)
    rw [hfixed] at htext
    simpa using htext

theorem foreignFrom_token {kind : Kind} (h : text ∈ kind.language)
    (hstarts : ¬ StartsItem (text ++ rest)) :
    foreignFrom pos (text ++ rest) = foreignFrom (pos + text.length) rest := by
  obtain ⟨hnative, hslash⟩ := isNative_of_mem_language h
  cases text with
  | nil => rfl
  | cons c text =>
    rw [List.forall_mem_cons] at hnative
    have htext : ∀ c ∈ text, c ≠ '/' ∧ isNative c = true :=
      fun c hc => ⟨fun heq => hslash (heq ▸ hc), hnative.2 c hc⟩
    rw [List.cons_append] at hstarts ⊢
    rw [foreignFrom_cons (fun _ => hstarts) hnative.1, foreignFrom_append htext, List.length_cons,
      Nat.add_right_comm, Nat.add_assoc]

theorem foreignFrom_gap_token {token : Token} (hgap : Gap gap (token.text.toList ++ rest))
    (hstarts : ¬ StartsItem (token.text.toList ++ rest)) (hpos : token.pos = pos + gap.length)
    (hmunched : Munched (token.text.toList ++ rest) token.kind token.text.toList) :
    foreignFrom pos (gap ++ (token.text.toList ++ rest)) = foreignFrom token.stop rest := by
  rw [hgap.foreignFrom_append, foreignFrom_token hmunched.mem hstarts, ← hpos,
    String.length_toList, Token.stop]

/-- A native character is a space or a token by itself. -/
theorem isSpace_or_mem_language (h : isNative c = true) :
    isSpace c = true ∨ ∃ kind : Kind, [c] ∈ kind.language := by
  simp only [isNative, Bool.or_eq_true, decide_eq_true_eq] at h
  rcases h with ((h | h) | h) | h
  · exact .inr ⟨.ident, Kind.mem_language_ident.2 ⟨c, [], rfl, by simp [isWordStart, h], by simp⟩⟩
  · exact .inr ⟨.ident, Kind.mem_language_ident.2 ⟨c, [], rfl, by simp [isWordStart, h], by simp⟩⟩
  · refine .inr ⟨.int, Kind.mem_language_int.2 ?_⟩
    by_cases hzero : c = '0'
    · exact .inl (by rw [hzero])
    · exact .inr ⟨c, [], rfl, hzero, h, by simp⟩
  · have hall : "_+-*/()=<>|, \t\n\r".toList.all fun c => isSpace c = true ∨ isWordStart c = true ∨
        ∃ kind ∈ Kind.all, kind.fixedText = some (String.ofList [c]) := by
      decide +kernel
    rcases of_decide_eq_true (List.all_eq_true.1 hall c h) with hspace | hstart | ⟨kind, -, hfixed⟩
    · exact .inl hspace
    · exact .inr ⟨.ident, Kind.mem_language_ident.2 ⟨c, [], rfl, hstart, by simp⟩⟩
    · have hmem := Kind.mem_language_fixedText hfixed
      rw [String.toList_ofList] at hmem
      exact .inr ⟨kind, hmem⟩

/-- A character that no token and no item of a gap begins with is foreign. -/
theorem foreignFrom_of_none (hstarts : ¬ StartsItem (c :: rest))
    (hnone : ∀ kind, ∀ text ∈ Kind.language kind, ¬ text <+: c :: rest) :
    isNative c = false ∧ foreignFrom pos (c :: rest) = (pos, c) :: foreignFrom (pos + 1) rest := by
  have hforeign : isNative c = false := by
    by_contra hnative
    rcases isSpace_or_mem_language (Bool.not_eq_false _ ▸ hnative) with hspace | ⟨kind, hmem⟩
    · exact hstarts ⟨[c], rest, .spaces (by simp) (by simpa using hspace), rfl⟩
    · exact hnone kind [c] hmem ⟨rest, rfl⟩
  refine ⟨hforeign, ?_⟩
  rw [foreignFrom, codeFrom_cons (fun _ => hstarts)]
  simp [foreignFrom, hforeign]

/-! ### Texts -/

theorem Splits.foreignFrom_eq {tokens : List Token} (h : Splits pos cs tokens) :
    foreignFrom pos cs = [] := by
  induction h with
  | @eof pos gap hgap =>
    have hnone : foreignFrom pos (gap ++ []) = [] := hgap.foreignFrom_append
    rwa [List.append_nil] at hnone
  | token hgap hstarts hpos hmunched _ _ ih =>
    rw [foreignFrom_gap_token hgap hstarts hpos hmunched]
    exact ih

/-- The foreign characters of a text that breaks off at a character are this one and others after
it. -/
theorem Broken.foreignFrom_eq {source found : String} {place : Nat} {tokens : List Token}
    (h : Broken source pos cs tokens (.language (.unexpectedCharacter found place c))) :
    ∃ others, foreignFrom pos cs = (place, c) :: others ∧ ∀ other ∈ others, place < other.1 := by
  generalize hfault : Fault.language (.unexpectedCharacter found place c) = fault at h
  induction h with
  | character hgap hstarts hnone =>
    cases hfault
    rw [hgap.foreignFrom_append]
    refine ⟨_, (foreignFrom_of_none hstarts hnone).2, ?_⟩
    intro other hother
    exact le_of_mem_codeFrom (List.mem_of_mem_filter hother)
  | numeral => cases hfault
  | token hgap hstarts hpos hmunched _ _ ih =>
    rw [foreignFrom_gap_token hgap hstarts hpos hmunched]
    exact ih hfault

/-! ### Tokens before a place -/

theorem Munches.token_inv {tokens : List Token} {token : Token}
    (h : Munches pos cs (token :: tokens)) (hgap : Gap gap rest) (hstarts : ¬ StartsItem rest)
    (hcs : cs = gap ++ rest) :
    token.pos = pos + gap.length ∧ Munched rest token.kind token.text.toList ∧
      Munches token.stop (rest.drop token.text.length) tokens := by
  cases h with
  | @token _ gap' rest' _ _ hgap' hstarts' hpos hmunched hrest =>
    have hwidth := hgap.gapWidth_append hstarts
    have hwidth' := hgap'.gapWidth_append hstarts'
    rw [hcs] at hwidth'
    obtain ⟨rfl, rfl⟩ := List.append_inj hcs (hwidth'.symm.trans hwidth)
    refine ⟨hpos, hmunched, ?_⟩
    rwa [← String.length_toList, List.drop_left]

/-- No numeral before the character at which a text breaks off has too many digits. -/
theorem Broken.length_le {source found : String} {place : Nat} {tokens tokens' : List Token}
    (h : Broken source pos cs tokens (.language (.unexpectedCharacter found place c)))
    (h' : Munches pos cs tokens') :
    ∀ token ∈ tokens', token.kind = .int → token.text.length ≤ Numeral.digitLimit := by
  generalize hfault : Fault.language (.unexpectedCharacter found place c) = fault at h
  induction h generalizing tokens' with
  | character hgap hstarts hnone =>
    cases tokens' with
    | nil => simp
    | cons token tokens' =>
      obtain ⟨-, hmunched, -⟩ := h'.token_inv hgap hstarts rfl
      exact absurd hmunched.begins (hnone _ _ hmunched.mem)
  | numeral => cases hfault
  | @token pos gap rest tokens fault first hgap hstarts hpos hmunched hlimit _ ih =>
    cases tokens' with
    | nil => simp
    | cons token tokens' =>
      obtain ⟨hpos', hmunched', hrest'⟩ := h'.token_inv hgap hstarts rfl
      obtain ⟨hkind, htext⟩ := hmunched'.unique hmunched
      obtain rfl : token = first := by
        cases token
        cases first
        exact (Token.mk.injEq ..).mpr ⟨hkind, String.toList_inj.1 htext, hpos'.trans hpos.symm⟩
      rw [← String.length_toList, List.drop_left] at hrest'
      refine List.forall_mem_cons.2 ⟨hlimit, ih hrest' hfault⟩

theorem Broken.exists_munches {source : String} {digits : Nat} {tokens : List Token}
    (h : Broken source pos cs tokens (.numeralTooLong digits)) :
    ∃ tokens', Munches pos cs tokens' ∧ ∃ token ∈ tokens', token.kind = .int ∧
      Numeral.digitLimit < token.text.length ∧
      ∀ found ∈ foreignFrom pos cs, token.pos < found.1 := by
  generalize hfault : Fault.numeralTooLong digits = fault at h
  induction h with
  | character => cases hfault
  | @numeral pos gap digits rest hgap hstarts hmunched hlong =>
    have htext : (String.ofList digits).toList = digits := String.toList_ofList
    let token : Token := { kind := .int, text := String.ofList digits, pos := pos + gap.length }
    refine ⟨[token], ?_, token, by simp, rfl, by simpa [token] using hlong, ?_⟩
    · rw [← htext] at hgap hstarts hmunched ⊢
      exact @Munches.token _ _ _ _ token hgap hstarts rfl hmunched .nil
    · intro found hfound
      rw [hgap.foreignFrom_append, foreignFrom_token hmunched.mem hstarts] at hfound
      have hle := le_of_mem_codeFrom (List.mem_of_mem_filter hfound)
      simp only [token]
      omega
  | @token pos gap rest tokens fault first hgap hstarts hpos hmunched hlimit _ ih =>
    obtain ⟨tokens', hmunches, token, hmem, hint, hlong, hforeign⟩ := ih hfault
    refine ⟨first :: tokens', .token hgap hstarts hpos hmunched hmunches, token, by simp [hmem],
      hint, hlong, ?_⟩
    rw [foreignFrom_gap_token hgap hstarts hpos hmunched]
    exact hforeign

/-! ### Texts that are cut off -/

theorem GapItem.cut {item rest' : List Char} (h : GapItem item rest) (hrest : rest' <+: rest) :
    GapItem item rest' := by
  cases h with
  | spaces hne hspaces => exact .spaces hne hspaces
  | line hbody hends =>
    refine .line hbody ?_
    intro c hc
    obtain ⟨more, rfl⟩ := hrest
    exact hends c (by rw [List.head?_append, Option.mem_def.1 hc]; rfl)
  | block hbody => exact .block hbody

theorem Gap.cut {rest' : List Char} (h : Gap gap rest) (hrest : rest' <+: rest) :
    Gap gap rest' := by
  induction h with
  | nil => exact .nil
  | cons hitem _ ih =>
    exact .cons (hitem.cut ((List.prefix_append_right_inj _).2 hrest)) (ih hrest)

theorem StartsItem.extend {cs' : List Char} (h : StartsItem cs) (hcs : cs <+: cs') :
    StartsItem cs' := by
  obtain ⟨more, rfl⟩ := hcs
  obtain ⟨item, rest, hitem, rfl⟩ := h
  rw [List.append_assoc]
  cases hitem with
  | spaces hne hspaces => exact ⟨_, _, .spaces hne hspaces, rfl⟩
  | line => exact startsItem_of_line _
  | block hbody => exact ⟨_, _, .block hbody, rfl⟩

theorem Munched.cut {kind : Kind} {cs' : List Char} (h : Munched cs kind text)
    (htext : text <+: cs') (hcs : cs' <+: cs) : Munched cs' kind text where
  begins := htext
  mem := h.mem
  longest other text' hmem hbegins := h.longest other text' hmem (hbegins.trans hcs)
  first := h.first

/-- Up to the character at which a text breaks off, it is a text that is read to its end. -/
theorem Broken.splits {source found : String} {place : Nat} {tokens : List Token}
    (h : Broken source pos cs tokens (.language (.unexpectedCharacter found place c))) :
    ∃ before rest, cs = before ++ c :: rest ∧ place = pos + before.length ∧
      Splits pos before (tokens ++ [Token.eof place]) := by
  generalize hfault : Fault.language (.unexpectedCharacter found place c) = fault at h
  induction h with
  | @character pos gap c rest hgap =>
    cases hfault
    exact ⟨gap, rest, rfl, rfl, .eof (hgap.cut List.nil_prefix)⟩
  | numeral => cases hfault
  | @token pos gap rest tokens fault token hgap hstarts hpos hmunched hlimit _ ih =>
    obtain ⟨before, more, rfl, hplace, hsplits⟩ := ih hfault
    have hcut : token.text.toList ++ before <+: token.text.toList ++ (before ++ c :: more) :=
      (List.prefix_append_right_inj _).2 (List.prefix_append _ _)
    refine ⟨gap ++ (token.text.toList ++ before), more, by simp, ?_, ?_⟩
    · rw [hplace, Token.stop, hpos, List.length_append, List.length_append, String.length_toList]
      omega
    · exact .token (hgap.cut hcut) (fun hitem => hstarts (hitem.extend hcut)) hpos
        (hmunched.cut (List.prefix_append _ _) hcut) hlimit hsplits

/-! ### Lexical errors -/

theorem mem_foreignFrom_iff {text : String} {place : Nat} :
    (place, c) ∈ foreignFrom 0 text.toList ↔ ForeignAt text place c := by
  simp [foreignFrom, ForeignAt]

theorem exists_lexError_iff (text : String) :
    (∃ source pos c,
        (tokenize text).ending = some (.language (.unexpectedCharacter source pos c))) ↔
      ∃ pos c, ForeignAt text pos c ∧ ¬ LongNumeralBefore text pos := by
  constructor
  · rintro ⟨source, pos, c, h⟩
    have hbroken := broken_tokensFrom text 0 text.toList h
    obtain ⟨others, hforeign, -⟩ := hbroken.foreignFrom_eq
    refine ⟨pos, c, mem_foreignFrom_iff.1 (by simp [hforeign]), ?_⟩
    rintro ⟨tokens, hmunches, token, hmem, hint, hlong, -⟩
    exact absurd hlong (Nat.not_lt.2 (hbroken.length_le hmunches token hmem hint))
  · rintro ⟨pos, c, hforeign, hshort⟩
    rw [← mem_foreignFrom_iff] at hforeign
    cases hending : (tokenize text).ending with
    | none =>
      rw [(splits_tokensFrom text 0 text.toList hending).foreignFrom_eq] at hforeign
      cases hforeign
    | some fault =>
      have hbroken := broken_tokensFrom text 0 text.toList hending
      rcases hbroken.fault_eq with ⟨place, char, rfl⟩ | ⟨digits, rfl, -⟩
      · exact ⟨text, place, char, rfl⟩
      · obtain ⟨tokens, hmunches, token, hmem, hint, hlong, hbefore⟩ := hbroken.exists_munches
        exact absurd ⟨tokens, hmunches, token, hmem, hint, hlong, hbefore _ hforeign⟩ hshort

/-- The character of a lexical error is the first foreign one. -/
theorem foreignAt_of_lexError {text source : String}
    (h : (tokenize text).ending = some (.language (.unexpectedCharacter source pos c))) :
    ForeignAt text pos c ∧ ∀ pos' c', ForeignAt text pos' c' → pos ≤ pos' := by
  obtain ⟨others, hforeign, hothers⟩ := (broken_tokensFrom text 0 text.toList h).foreignFrom_eq
  refine ⟨mem_foreignFrom_iff.1 (by simp [hforeign]), ?_⟩
  intro pos' c' hforeign'
  rw [← mem_foreignFrom_iff, hforeign] at hforeign'
  rcases List.mem_cons.1 hforeign' with heq | hmem
  · cases heq
    exact Nat.le_refl _
  · exact Nat.le_of_lt (hothers _ hmem)

/-- The tokens before a lexical error are those of the text up to its character. -/
theorem tokenize_take_of_lexError {text source : String}
    (h : (tokenize text).ending = some (.language (.unexpectedCharacter source pos c))) :
    (∀ token ∈ (tokenize text).tokens, token.kind ≠ .eof) ∧
      tokenize (String.ofList (text.toList.take pos)) =
        { tokens := (tokenize text).tokens ++ [Token.eof pos], ending := none } := by
  constructor
  · rcases tokensFrom_shape text 0 text.toList with ⟨tokens, last, hfeed, -⟩ | ⟨-, hkinds⟩
    · rw [tokenize, hfeed] at h
      cases h
    · exact hkinds
  · obtain ⟨before, rest, hcs, hplace, hsplits⟩ := (broken_tokensFrom text 0 text.toList h).splits
    have htake : text.toList.take pos = before := by
      rw [hcs, hplace, Nat.zero_add, List.take_left]
    rw [htake, tokenize, String.toList_ofList]
    exact hsplits.tokensFrom_eq _

/-- Reading a text fails with a lexical error exactly if its code has a foreign character that no
numeral with too many digits comes before. The error is then at the first of the foreign characters,
and the tokens before it are those of the text up to there. -/
theorem lexError_iff_foreign (text : String) :
    ((∃ source pos c,
        (tokenize text).ending = some (.language (.unexpectedCharacter source pos c))) ↔
      ∃ pos c, ForeignAt text pos c ∧ ¬ LongNumeralBefore text pos) ∧
    ∀ source pos c,
      (tokenize text).ending = some (.language (.unexpectedCharacter source pos c)) →
        source = text ∧ ForeignAt text pos c ∧ text.toList[pos]? = some c ∧
        (∀ pos' c', ForeignAt text pos' c' → pos ≤ pos') ∧
        (∀ token ∈ (tokenize text).tokens, token.kind ≠ .eof) ∧
        tokenize (String.ofList (text.toList.take pos)) =
          { tokens := (tokenize text).tokens ++ [Token.eof pos], ending := none } := by
  refine ⟨exists_lexError_iff text, ?_⟩
  intro source pos c h
  obtain ⟨hforeign, hfirst⟩ := foreignAt_of_lexError h
  obtain ⟨hkinds, htake⟩ := tokenize_take_of_lexError h
  have hbroken := broken_tokensFrom text 0 text.toList h
  obtain ⟨hsource, hchar⟩ := @Broken.getElem?_eq _ _ [] _ _ _ _ _ hbroken rfl
  exact ⟨hsource, hforeign, hchar, hfirst, hkinds, htake⟩

-- The `*/` that closes the first comment is not the one that its own star could begin.
example : codeFrom 0 .code "/*/#*/ 1//#\n/*@".toList =
    [(6, ' '), (7, '1'), (11, '\n'), (12, '/'), (13, '*'), (14, '@')] := by decide +kernel

end LetLang.Lexer
