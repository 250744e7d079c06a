import LetLang.Notice
import LetLang.Proofs.Lexing.Foreign
import LetLang.Proofs.Locations.Columns
import LetLang.Proofs.Parsing.OneAhead
import LetLang.Proofs.Parsing.Faults
import LetLang.Proofs.Causes
import LetLang.Proofs.Texts.Pieces
/-!
# Diagnoses

The error that stops the reading of a text is about a character or a token of it, or about its end,
whatever was read before. Its notice names just these characters, and the diagnosis shows the line
that they are in, with a mark under them that is as wide as they are.
-/
namespace LetLang

open Text

/-! ### The line of an offset -/

/-- The offset stands in the column of a line of the text. Only line feeds divide lines, and the
column after the last character of a line is one of its columns. -/
def StandsAt (text : String) (pos : Nat) (line : List Char) (column : Nat) : Prop :=
  ∃ before after, text.toList.splitOn '\n' = before ++ line :: after ∧
    pos = (joined before).length + column ∧ column ≤ line.length

/-- Locating an offset of a text gives the line and the column that it stands in. -/
theorem exists_standsAt {text : String} {pos : Nat} (h : pos ≤ text.toList.length) :
    ∃ line column index tail, StandsAt text pos line column ∧
      locate text pos = { line := String.ofList line, index, column } ∧
      text.toList.drop pos = line.drop column ++ tail ∧ tail.takeWhile (· ≠ '\n') = [] := by
  rw [String.length_toList] at h
  obtain ⟨before, line, after, column, hsplit, rfl, hcolumn⟩ := exists_split h
  obtain ⟨hlocate, tail, hsource, htail⟩ := locate_split hsplit hcolumn
  refine ⟨line, column, before.length, tail, ⟨before, after, hsplit, rfl, hcolumn⟩, hlocate, ?_,
    htail⟩
  rw [hsource, List.drop_length_add_append, List.drop_append_of_le_length hcolumn]

/-! ### Notices about parts of a text -/

/-- The notice is about the given part of the text, and shows it: the whole line that the part is in
and, under the part, a mark of its width. The end of the text is an empty part of width one. -/
structure Notice.Underlines (notice : Notice) (text : String) (start : Nat) (part : List Char) :
    Prop where
  source_eq : notice.source = text
  start_eq : notice.start = start
  stop_eq : notice.stop = (start + max part.length 1 : Nat)
  slice_eq : Lexer.slice text.toList start (start + max part.length 1) = part
  ending : part = [] → start = text.length
  shown : ∃ line column, StandsAt text start line column ∧
    (line.drop column).take (max part.length 1) = part ∧
    ∀ ink, notice.diagnosis false ink =
      "  " ++ String.ofList line ++ "\n" ++
        "  " ++ Notice.blanks column ++ "^" ++
          String.ofList (List.replicate (max part.length 1 - 1) '~')

/-- A part within a line is shown as it stands there. -/
theorem Notice.diagnosis_of_locate {notice : Notice} {line part : List Char} {column index : Nat}
    (hlocate : locate notice.source notice.start = { line := String.ofList line, index, column })
    (hwidth : notice.stop - notice.start = (max part.length 1 : Nat))
    (hpart : part <+: line.drop column) (hcolumn : column ≤ line.length)
    (hend : part = [] → column = line.length) (ink : Ink) :
    notice.diagnosis false ink =
      "  " ++ String.ofList line ++ "\n" ++
        "  " ++ Notice.blanks column ++ "^" ++
          String.ofList (List.replicate (max part.length 1 - 1) '~') := by
  have hlength := hpart.length_le
  rw [List.length_drop] at hlength
  -- The part stops where it should, also at the end of the line.
  have hstop : min (column + (max (notice.stop - notice.start) 1).toNat) line.length - column - 1 =
      max part.length 1 - 1 ∧
      column ≤ min (column + (max (notice.stop - notice.start) 1).toNat) line.length := by
    rw [hwidth]
    cases part with
    | nil =>
      have hcolumn := hend rfl
      simp only [List.length_nil]
      omega
    | cons c part =>
      simp only [List.length_cons] at hlength ⊢
      omega
  rw [diagnosis]
  simp only [hlocate, String.toList_ofList, Ink.paint, Bool.false_eq_true, if_false, mark]
  generalize min (column + (max (notice.stop - notice.start) 1).toNat) line.length = stop at hstop
  rw [hstop.1]
  apply String.toList_inj.1
  have hline : line.take column ++ ((line.take stop).drop column ++ line.drop stop) = line :=
    calc line.take column ++ ((line.take stop).drop column ++ line.drop stop)
      _ = (line.take stop).take column ++ (line.take stop).drop column ++ line.drop stop := by
        rw [List.take_take, Nat.min_eq_left hstop.2, List.append_assoc]
      _ = line := by rw [List.take_append_drop, List.take_append_drop]
  simp [hline]

/-- A notice about characters of a text that are on one line, or about its end, shows them. -/
theorem Notice.underlines_about {wording : List Segment} {text : String} {start : Nat}
    {part : List Char} (hpart : part <+: text.toList.drop start) (hbreak : '\n' ∉ part)
    (hstart : start ≤ text.toList.length) (hend : part = [] → start = text.length) :
    (Notice.about wording text start (start + max part.length 1 : Nat)).Underlines text start part := by
  obtain ⟨line, column, index, tail, hstands, hlocate, hdrop, htail⟩ := exists_standsAt hstart
  have hcolumn : column ≤ line.length := by
    obtain ⟨-, -, -, -, hle⟩ := hstands
    exact hle
  have hwithin : part <+: line.drop column := by
    rw [hdrop] at hpart
    exact prefix_of_prefix_append hpart hbreak htail
  have hlast : part = [] → column = line.length := by
    intro hempty
    have hnothing : text.toList.drop start = [] := by
      rw [hend hempty, ← String.length_toList, List.drop_length]
    rw [hnothing] at hdrop
    have hrest := (List.append_eq_nil_iff.1 hdrop.symm).1
    have hle := List.drop_eq_nil_iff.1 hrest
    omega
  -- Beyond a part that is empty there is nothing.
  have htake {cs : List Char} (hcs : part <+: cs) (hnil : part = [] → cs = []) :
      cs.take (max part.length 1) = part := by
    cases part with
    | nil => simp [hnil rfl]
    | cons c part =>
      rw [Nat.max_eq_left (by simp)]
      exact (List.prefix_iff_eq_take.1 hcs).symm
  refine ⟨rfl, rfl, rfl, ?_, hend, line, column, hstands, ?_, ?_⟩
  · rw [Lexer.slice, List.drop_take, Nat.add_sub_cancel_left]
    refine htake hpart fun hempty => ?_
    rw [hend hempty, ← String.length_toList, List.drop_length]
  · refine htake hwithin fun hempty => ?_
    rw [hlast hempty, List.drop_length]
  · refine Notice.diagnosis_of_locate hlocate ?_ hwithin hcolumn hlast
    show ((start + max part.length 1 : Nat) : Int) - (start : Int) = (max part.length 1 : Nat)
    omega

/-! ### What errors of reading are about -/

/-- The error is about a part of the source: about a character that begins no token, about a token
that was not expected, or about the end of the source, which is empty. -/
inductive LanguageError.Blames : LanguageError → String → Nat → List Char → Prop
  | character (source : String) (pos : Nat) (c : Char) :
      Blames (.unexpectedCharacter source pos c) source pos [c]
  | token (expected : List Kind) (found : Token) (source : String) (hkind : found.kind ≠ .eof)
      (htext : found.text ≠ "") :
      Blames (.unexpectedToken expected found source) source found.pos found.text.toList
  | ending (expected : List Kind) (found : Token) (source : String) (hkind : found.kind = .eof) :
      Blames (.unexpectedToken expected found source) source found.pos []

/-- The error is about a part of the text, which its notice underlines. -/
def LanguageError.Diagnosed (error : LanguageError) (text : String) : Prop :=
  ∃ start part, error.Blames text start part ∧ error.notice.Underlines text start part

/-- The token stands at its place in the text, or is the end of it. -/
def Token.Of (text : String) (token : Token) : Prop :=
  token = .eof text.length ∨ token.kind ≠ .eof ∧ Lexer.Placed text.toList token

theorem Token.of_mem_tokenize {text : String} {token : Token}
    (h : token ∈ (Lexer.tokenize text).tokens) : token.Of text := by
  by_cases hkind : token.kind = .eof
  · cases hending : (Lexer.tokenize text).ending with
    | none =>
      have hsplits := Lexer.splits_tokensFrom text 0 text.toList hending
      obtain ⟨-, -, -, others, hothers, hplaced⟩ := @Lexer.Splits.places [] _ _ _ hsplits rfl
      rw [show (Lexer.tokensFrom text 0 text.toList).tokens = (Lexer.tokenize text).tokens from rfl]
        at hothers
      rw [hothers, List.mem_append, List.mem_singleton] at h
      rcases h with hmem | hlast
      · exact absurd hkind (hplaced token hmem).1
      · exact .inl (by rw [hlast, List.nil_append, String.length_toList])
    | some fault =>
      have hbroken := Lexer.broken_tokensFrom text 0 text.toList hending
      have hplaced := @Lexer.Broken.placed _ [] _ _ _ _ hbroken rfl token h
      exact absurd hkind hplaced.munched.kind_ne_eof
  · exact .inr ⟨hkind, Lexer.placed_of_mem h hkind⟩

theorem LanguageError.diagnosed_of_token {text : String} {token : Token} (h : token.Of text)
    (expected : List Kind) : (unexpectedToken expected token text).Diagnosed text := by
  rcases h with rfl | ⟨hkind, hplaced⟩
  · refine ⟨text.length, [], .ending _ _ _ rfl, ?_⟩
    exact Notice.underlines_about List.nil_prefix List.not_mem_nil
      (Nat.le_of_eq String.length_toList.symm) fun _ => rfl
  · refine ⟨token.pos, token.text.toList, .token _ _ _ hkind hplaced.nonempty, ?_⟩
    have hvisible := Kind.visible_of_mem_language hplaced.munched.mem
    have hbreak : '\n' ∉ token.text.toList := fun hmem => absurd (hvisible.2 _ hmem) (by decide)
    have hstart : token.pos ≤ text.toList.length := by
      have hlength := hplaced.munched.begins.length_le
      have hpos := List.length_pos_iff.2 hvisible.1
      rw [List.length_drop] at hlength
      omega
    have hunderlines := @Notice.underlines_about (unexpectedToken expected token text).wording _ _ _
      hplaced.munched.begins hbreak hstart fun hempty => absurd hempty hvisible.1
    rw [String.length_toList] at hunderlines
    exact hunderlines

theorem LanguageError.diagnosed_of_ending {text : String} {error : LanguageError}
    (h : (Lexer.tokenize text).ending = some (.language error)) : error.Diagnosed text := by
  have hbroken := Lexer.broken_tokensFrom text 0 text.toList h
  rcases hbroken.fault_eq with ⟨place, c, heq⟩ | ⟨digits, heq, -⟩
  · cases heq
    have hchar := (@Lexer.Broken.getElem?_eq _ _ [] _ _ _ _ _ hbroken rfl).2
    rw [List.nil_append] at hchar
    have hnative := (Lexer.foreignAt_of_lexError h).1.2
    have hbreak : '\n' ∉ [c] := by
      rw [List.mem_singleton]
      rintro rfl
      revert hnative
      decide
    obtain ⟨hlt, hget⟩ := List.getElem?_eq_some_iff.1 hchar
    have hpart : [c] <+: text.toList.drop place :=
      ⟨text.toList.drop (place + 1), by rw [← hget, List.singleton_append, List.getElem_cons_drop]⟩
    exact ⟨place, [c], .character _ _ _,
      Notice.underlines_about hpart hbreak (Nat.le_of_lt hlt) (by simp)⟩
  · cases heq

theorem LanguageError.diagnosed_of_refusal {text : String} {error : LanguageError}
    (h : Refusal text (Lexer.tokenize text).ending (Token.Of text) (.language error)) :
    error.Diagnosed text := by
  cases h with
  | unexpected h => exact diagnosed_of_token h _
  | ended h => exact diagnosed_of_ending h

/-! ### Reading from a text -/

theorem holding_ofText (text : String) :
    Holding text (Lexer.tokenize text).ending (Token.Of text) (TokenStream.ofText text) where
  source_eq := rfl
  tokens _ htoken := Token.of_mem_tokenize htoken
  ending _ hfault := hfault

/-- Whatever is read from a text, and however often, the tokens that are left are those of it. -/
theorem holding_of_visited {text : String} {s : TokenStream}
    (h : Parser.Visited text (Lexer.tokenize text) s) :
    Holding text (Lexer.tokenize text).ending (Token.Of text) s := by
  induction h with
  | fresh => exact holding_ofText text
  | parse budget _ ih => exact (inherited_draws.read budget .expr).keeps ih
  | atEnd _ ih => exact (inherited_draws.nextIs _).keeps ih

/-- Reading one expression and looking whether more follows are two calls. -/
theorem Parser.Visited.parseNext {source : String} {feed : Lexer.Feed} {s : TokenStream}
    (h : Visited source feed s) (budget : Nat) :
    Visited source feed (outcome (Parser.parseNext budget) s).2 := by
  have hparse := h.parse budget
  rw [Parser.parseNext]
  rcases hrun : outcome (Parser.parse budget) s with ⟨fault | expr, s₁⟩ <;> rw [hrun] at hparse
  · rwa [outcome_bind_of_error hrun]
  · have hend := hparse.atEnd
    rw [outcome_bind_of_ok hrun]
    rcases hlook : outcome TokenStream.atEnd s₁ with ⟨fault | answer, s₂⟩ <;> rw [hlook] at hend
    · rwa [outcome_bind_of_error hlook]
    · rwa [outcome_bind_of_ok hlook]

namespace Program

variable {parsing : Nat} {text : String}

/-- What stops the reading of a stream is a refusal of it. -/
theorem Reads.refusal {s : TokenStream} {exprs : List Expr} {stop : Option Fault}
    (h : Reads parsing s exprs stop) {source : String} {ending : Option Fault} {P : Token → Prop}
    (hs : Holding source ending P s) {fault : Fault} (hstop : stop = some fault) :
    Refusal source ending P fault := by
  have hlook : Draws source ending P TokenStream.atEnd := inherited_draws.nextIs _
  have hparses : Draws source ending P (Parser.parseNext parsing) :=
    inherited_draws.parseNext parsing
  induction h with
  | atEnd => cases hstop
  | noToken h =>
    cases hstop
    exact hlook.fault hs (congrArg Prod.fst h)
  | noExpr h hparse =>
    cases hstop
    exact hparses.fault (hlook.after hs h) (congrArg Prod.fst hparse)
  | cons h hparse _ ih => exact ih (hparses.after (hlook.after hs h) hparse) hstop

theorem refusal_of_expressions {fault : Fault} (h : (expressions parsing text).2 = some fault) :
    Refusal text (Lexer.tokenize text).ending (Token.Of text) fault :=
  (reads_iff.2 rfl).refusal (holding_ofText text) h

end Program

namespace LanguageError

/-- The error is one of reading: it is about a place in a text. -/
def OfReading : LanguageError → Prop
  | unexpectedCharacter _ _ _ | unexpectedToken _ _ _ => True
  | _ => False

theorem not_ofReading_of_placeless {error : LanguageError} (h : (Fault.language error).Placeless) :
    ¬ error.OfReading := by
  have hmoved := h (· + 1) ""
  cases error with
  | unexpectedCharacter source pos c => simp [Fault.placed] at hmoved
  | unexpectedToken expected found source =>
    simp only [Fault.placed, Fault.language.injEq, unexpectedToken.injEq, true_and] at hmoved
    have hpos : found.pos + 1 = found.pos := congrArg Token.pos hmoved.1
    omega
  | _ => exact id

end LanguageError

/-- The diagnosis of an error of reading underlines just the part of the text that the error is
about, whether the text is interpreted or its expressions are read one by one, also if some of them
could not be read before. -/
theorem diagnoses_underline_blamed (text : String) :
    (∀ limits scope store error, error.OfReading →
      (outcome (Program.interpret limits text scope) store).1 = .error (.language error) →
        error.Diagnosed text) ∧
    (∀ budget s, Parser.Visited text (Lexer.tokenize text) s →
      Parser.Visited text (Lexer.tokenize text) (outcome (Parser.parseNext budget) s).2 ∧
      ∀ error, (outcome (Parser.parseNext budget) s).1 = .error (.language error) →
        error.Diagnosed text) := by
  constructor
  · intro limits scope store error hreading h
    rcases Option.or_eq_some_iff.1 (Program.course_fault_of_interpret h) with heval | ⟨-, hread⟩
    · obtain ⟨before, expr, after, -, -, hresult⟩ := evaluateAll_fault heval
      have hplaceless := evaluate_placeless limits.evaluation expr scope _ _ _
        (Prod.ext hresult rfl)
      exact absurd hreading (LanguageError.not_ofReading_of_placeless hplaceless)
    · exact LanguageError.diagnosed_of_refusal (Program.refusal_of_expressions hread)
  · intro budget s hs
    refine ⟨hs.parseNext budget, fun error h => ?_⟩
    exact LanguageError.diagnosed_of_refusal
      ((inherited_draws.parseNext budget).fault (holding_of_visited hs) h)

/-- A word on the second line is refused. -/
theorem diagnoses_underline_blamed_second_line :
    let found : Token := { kind := .inWord, text := "in", pos := 5 }
    let error := LanguageError.unexpectedToken Parser.primaryKinds found "1 +\n in 2"
    (outcome (Parser.parseNext 9) (TokenStream.ofText "1 +\n in 2")).1 = .error (.language error) ∧
    error.Diagnosed "1 +\n in 2" ∧ error.notice.diagnosis false .red = "   in 2\n   ^~" := by
  have hrefused : (outcome (Parser.parseNext 9) (TokenStream.ofText "1 +\n in 2")).1 =
      .error (.language (.unexpectedToken Parser.primaryKinds { kind := .inWord, text := "in", pos := 5 }
        "1 +\n in 2")) := by
    decide +kernel
  exact ⟨hrefused, ((diagnoses_underline_blamed "1 +\n in 2").2 9 _ .fresh).2 _ hrefused,
    by decide +kernel⟩

end LetLang
