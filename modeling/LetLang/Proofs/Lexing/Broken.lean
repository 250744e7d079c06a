import LetLang.Proofs.Lexing.Lossless
/-!
# Texts that break off

A text whose reading stops at a fault is made of gaps and tokens up to a place where no token can be
taken: a character begins none, or the longest one is a numeral with too many digits. The tokens
before that place stand where they are, as in a text that is read to its end.
-/
namespace LetLang.Lexer

/-- The text, from an offset of the source on, is made of gaps and tokens up to a fault. -/
inductive Broken (source : String) : Nat → List Char → List Token → Fault → Prop
  | character {pos gap c rest} (hgap : Gap gap (c :: rest)) (hstarts : ¬ StartsItem (c :: rest))
      (hnone : ∀ kind, ∀ text ∈ Kind.language kind, ¬ text <+: c :: rest) :
      Broken source pos (gap ++ c :: rest) []
        (.language (.unexpectedCharacter source (pos + gap.length) c))
  | numeral {pos gap digits rest} (hgap : Gap gap (digits ++ rest))
      (hstarts : ¬ StartsItem (digits ++ rest)) (hmunched : Munched (digits ++ rest) .int digits)
      (hlong : Numeral.digitLimit < digits.length) :
      Broken source pos (gap ++ (digits ++ rest)) [] (.numeralTooLong digits.length)
  | token {pos gap rest tokens fault} {token : Token} (hgap : Gap gap (token.text.toList ++ rest))
      (hstarts : ¬ StartsItem (token.text.toList ++ rest)) (hpos : token.pos = pos + gap.length)
      (hmunched : Munched (token.text.toList ++ rest) token.kind token.text.toList)
      (hlimit : token.kind = .int → token.text.length ≤ Numeral.digitLimit)
      (hrest : Broken source token.stop rest tokens fault) :
      Broken source pos (gap ++ (token.text.toList ++ rest)) (token :: tokens) fault

/-- What keeps a token from being read. -/
theorem scan_error {source : String} {pos : Nat} {cs : List Char} {fault : Fault}
    (h : scan source pos cs = .error fault) :
    (∃ c rest, cs = c :: rest ∧ fault = .language (.unexpectedCharacter source pos c) ∧
        ∀ kind, ∀ text ∈ Kind.language kind, ¬ text <+: c :: rest) ∨
      ∃ digits rest, cs = digits ++ rest ∧ fault = .numeralTooLong digits.length ∧
        Munched (digits ++ rest) .int digits ∧ Numeral.digitLimit < digits.length := by
  cases cs with
  | nil => cases h
  | cons c rest =>
    rw [scan] at h
    rcases hlongest : longest (c :: rest) with ⟨kind, _ | width⟩
    · rw [hlongest] at h
      cases h
      refine .inl ⟨c, rest, rfl, rfl, ?_⟩
      intro other text hmem hbegins
      have hwidth := (foldl_wider (c :: rest) Kind.all (.eof, 0)).2.1 other (Kind.mem_all other)
      rw [show Kind.all.foldl (wider (c :: rest)) (.eof, 0) = (kind, 0) from hlongest] at hwidth
      have hle := length_le_matchWidth hmem hbegins
      have hpos := List.length_pos_iff.2 (Kind.isSpace_of_mem_language hmem).1
      dsimp only at hwidth
      omega
    · rw [hlongest] at h
      dsimp only at h
      split at h
      · next hlimit =>
        obtain ⟨rfl, hlong⟩ := hlimit
        cases h
        have hmunched := munched_of_longest hlongest (Nat.succ_pos width)
        have hle := longest_le (c :: rest)
        rw [hlongest] at hle
        have hlength : ((c :: rest).take (width + 1)).length = width + 1 := by
          rw [List.length_take]
          exact Nat.min_eq_left hle
        refine .inr ⟨(c :: rest).take (width + 1), (c :: rest).drop (width + 1), ?_, ?_, ?_, ?_⟩
        · rw [List.take_append_drop]
        · rw [hlength]
        · rwa [List.take_append_drop]
        · rwa [hlength]
      · cases h

theorem broken_tokensFrom (source : String) {fault : Fault} (pos : Nat) (cs : List Char) :
    (tokensFrom source pos cs).ending = some fault →
      Broken source pos cs (tokensFrom source pos cs).tokens fault := by
  fun_induction tokensFrom source pos cs with
  | case1 pos cs code found hscan =>
    intro h
    cases h
    obtain ⟨gap, rest, hgap, hstarts, rfl, hwidth⟩ := exists_gap cs
    have hcode : code = rest := drop_gapWidth hwidth
    rw [hcode, hwidth] at hscan
    rcases scan_error hscan with ⟨c, rest, rfl, rfl, hnone⟩ | ⟨digits, rest, rfl, rfl, hint, hlong⟩
    · exact .character hgap hstarts hnone
    · exact .numeral hgap hstarts hint hlong
  | case2 => exact fun h => by cases h
  | case3 pos cs code token hscan hkind ih =>
    intro h
    obtain ⟨gap, rest, hgap, hstarts, rfl, hwidth⟩ := exists_gap cs
    have hcode : code = rest := drop_gapWidth hwidth
    have hrest := ih h
    have hpos := scan_pos hscan
    rw [hwidth] at hpos
    rw [hcode] at hscan hrest
    obtain ⟨hmunched, hlimit⟩ := munched_of_scan hscan hkind
    obtain ⟨more, rfl⟩ := hmunched.begins
    rw [← String.length_toList, List.drop_left] at hrest
    rw [hcode, ← String.length_toList, List.drop_left]
    exact .token hgap hstarts hpos hmunched hlimit hrest

/-- The tokens before a fault stand at their places. -/
theorem Broken.placed {source : String} {before cs : List Char} {pos : Nat} {tokens : List Token}
    {fault : Fault} (h : Broken source pos cs tokens fault) (hpos : pos = before.length) :
    ∀ token ∈ tokens, Placed (before ++ cs) token := by
  induction h generalizing before with
  | character | numeral => simp
  | @token pos gap rest tokens fault token hgap hstarts htoken hmunched hlimit _ ih =>
    subst hpos
    have hlength : token.pos = (before ++ gap).length := by simp [htoken]
    have hstop : token.stop = (before ++ gap ++ token.text.toList).length := by
      rw [Token.stop, List.length_append, ← hlength, String.length_toList]
    have hplaced := placed_of_munched hlength hmunched
    have hrest := ih hstop
    simp only [List.append_assoc] at hplaced hrest
    exact List.forall_mem_cons.2 ⟨hplaced, hrest⟩

/-- A character that begins no token is there. -/
theorem Broken.getElem?_eq {source found : String} {before cs : List Char} {pos place : Nat}
    {tokens : List Token} {c : Char}
    (h : Broken source pos cs tokens (.language (.unexpectedCharacter found place c)))
    (hpos : pos = before.length) :
    found = source ∧ (before ++ cs)[place]? = some c := by
  generalize hfault : Fault.language (.unexpectedCharacter found place c) = fault at h
  induction h generalizing before with
  | @character pos gap c' rest =>
    cases hfault
    subst hpos
    simp
  | numeral => cases hfault
  | @token pos gap rest tokens fault token hgap hstarts htoken hmunched hlimit _ ih =>
    have hstop : token.stop = (before ++ (gap ++ token.text.toList)).length := by
      rw [Token.stop, htoken, hpos, List.length_append, List.length_append, String.length_toList,
        Nat.add_assoc]
    have hrest := ih hstop hfault
    simpa only [List.append_assoc] using hrest

/-- A text breaks off at a character that begins no token, or at a numeral with too many digits. -/
theorem Broken.fault_eq {source : String} {cs : List Char} {pos : Nat} {tokens : List Token}
    {fault : Fault} (h : Broken source pos cs tokens fault) :
    (∃ place c, fault = .language (.unexpectedCharacter source place c)) ∨
      ∃ digits, fault = .numeralTooLong digits ∧ Numeral.digitLimit < digits := by
  induction h with
  | @character pos gap c rest => exact .inl ⟨pos + gap.length, c, rfl⟩
  | @numeral pos gap digits rest hgap hstarts hmunched hlong =>
    exact .inr ⟨digits.length, rfl, hlong⟩
  | token _ _ _ _ _ _ ih => exact ih

/-- Every token of a text but its end stands at its place, also if the text breaks off. -/
theorem placed_of_mem {text : String} {token : Token} (h : token ∈ (tokenize text).tokens)
    (hkind : token.kind ≠ .eof) : Placed text.toList token := by
  cases hending : (tokenize text).ending with
  | none =>
    have hsplits := splits_tokensFrom text 0 text.toList hending
    obtain ⟨-, -, -, others, hothers, hplaced⟩ := @Splits.places [] _ _ _ hsplits rfl
    rw [show (tokensFrom text 0 text.toList).tokens = (tokenize text).tokens from rfl] at hothers
    rw [hothers] at h
    rcases List.mem_append.1 h with hmem | hlast
    · exact (hplaced token hmem).2
    · rw [List.mem_singleton.1 hlast] at hkind
      exact absurd rfl hkind
  | some fault =>
    have hbroken := broken_tokensFrom text 0 text.toList hending
    exact @Broken.placed _ [] _ _ _ _ hbroken rfl token h

end LetLang.Lexer
