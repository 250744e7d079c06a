import LetLang.Proofs.Lexing.Layouts
import LetLang.Proofs.Texts.Pieces
/-!
# Texts that differ in their layout

Two texts with the same tokens, wherever these stand, hold the same expressions and run alike, but
for the places that their faults name. All layouts of the same lexemes are such texts.
-/
namespace LetLang

open Lexer

/-! ### Texts with the same tokens -/

def Fault.unplaced : Fault → Fault :=
  Fault.placed (fun _ => 0) ""

/-- The tokens and the fault without their places. -/
def Lexer.Feed.unplaced (feed : Feed) : Feed :=
  { tokens := feed.tokens.map (Token.placed fun _ => 0),
    ending := feed.ending.map Fault.unplaced }

namespace Program

variable {text text' : String}

/-- The expressions of a text can be read from its tokens without their places. -/
theorem readStream_unplaced (parsing : Nat) (text : String) :
    readStream parsing (tokenize text).unplaced.tokens
        (TokenStream.ofFeed "" (tokenize text).unplaced) =
      ((expressions parsing text).1, (expressions parsing text).2.map Fault.unplaced) := by
  have hmoved : Moved (fun _ => 0) "" (TokenStream.ofText text)
      (TokenStream.ofFeed "" (tokenize text).unplaced) := rfl
  exact readStream_moved hmoved (Nat.le_refl _) (Nat.le_of_eq hmoved.length_eq.symm)

theorem expressions_of_unplaced (h : (tokenize text').unplaced = (tokenize text).unplaced)
    (parsing : Nat) :
    (expressions parsing text').1 = (expressions parsing text).1 ∧
      (expressions parsing text').2.map Fault.unplaced =
        (expressions parsing text).2.map Fault.unplaced := by
  have hread := readStream_unplaced parsing text
  rw [← h, readStream_unplaced parsing text'] at hread
  exact Prod.mk.inj hread

/-- What reading stops at makes no difference to a run, but for the places that it names. -/
theorem outcome_inOrder_unplaced (budget : Nat) (scope : ScopeId) (stop : Option Fault)
    (exprs : List Expr) (store : Store) :
    outcome (inOrder (evaluate budget · scope) (stop.map Fault.unplaced) exprs) store =
      (outcome (inOrder (evaluate budget · scope) stop exprs) store).map
        (Except.mapError Fault.unplaced) id := by
  rw [Fault.unplaced, outcome_inOrder_placed]
  rcases outcome (inOrder (evaluate budget · scope) stop exprs) store with ⟨_ | _, _⟩ <;> rfl

theorem outcome_interpret_of_unplaced (h : (tokenize text').unplaced = (tokenize text).unplaced)
    (limits : Limits) (scope : ScopeId) (store : Store) :
    (outcome (interpret limits text' scope) store).map (Except.mapError Fault.unplaced) id =
      (outcome (interpret limits text scope) store).map (Except.mapError Fault.unplaced) id := by
  obtain ⟨hexprs, hstop⟩ := expressions_of_unplaced h limits.parsing
  rw [interpret_eq_inOrder, interpret_eq_inOrder, ← outcome_inOrder_unplaced,
    ← outcome_inOrder_unplaced, hexprs, hstop]

end Program

/-! ### Layouts -/

theorem Lexer.Layout.unplaced_tokenize_text (layout : Lexer.Layout) (lexemes : List Lexeme) :
    (tokenize (layout.text lexemes)).unplaced =
      { tokens := lexemes.map (·.tokenAt 0) ++ [Token.eof 0], ending := none } := by
  rw [layout.tokenize_text, Feed.unplaced, Lexer.Layout.tokens, layout.map_placed_tokensFrom]
  rfl

/-- A layout is read as the tokens that it was made of, with their kinds, texts and values, at the
places where it has put them, and then the end of the text. So two layouts of the same lexemes hold
the same expressions, and running them gives the same values or the same fault, but for the places
that it names, and leaves the same store. -/
theorem reading_undoes_layout (lexemes : List Lexeme) (layout layout' : Lexer.Layout) :
    tokenize (layout.text lexemes) = { tokens := layout.tokens lexemes, ending := none } ∧
      (layout.tokens lexemes).map (fun token => (token.kind, token.text, token.value)) =
        lexemes.map (fun lexeme => (lexeme.kind, lexeme.text, lexeme.value)) ++
          [(.eof, "", none)] ∧
      (∀ parsing,
        (Program.expressions parsing (layout'.text lexemes)).1 =
          (Program.expressions parsing (layout.text lexemes)).1 ∧
        (Program.expressions parsing (layout'.text lexemes)).2.map Fault.unplaced =
          (Program.expressions parsing (layout.text lexemes)).2.map Fault.unplaced) ∧
      ∀ limits scope store,
        (outcome (Program.interpret limits (layout'.text lexemes) scope) store).map
            (Except.mapError Fault.unplaced) id =
          (outcome (Program.interpret limits (layout.text lexemes) scope) store).map
            (Except.mapError Fault.unplaced) id := by
  have hsame : (tokenize (layout'.text lexemes)).unplaced =
      (tokenize (layout.text lexemes)).unplaced := by
    rw [layout'.unplaced_tokenize_text, layout.unplaced_tokenize_text]
  exact ⟨layout.tokenize_text lexemes, layout.map_tokens lexemes,
    Program.expressions_of_unplaced hsame, Program.outcome_interpret_of_unplaced hsame⟩

/-- A binding with comments before, between and after its lexemes, and without any. -/
theorem reading_undoes_layout_comments :
    let written := "/* a */let\n// b\nx = 7 // end"
    (∃ (lexemes : List Lexeme) (commented plain : Lexer.Layout),
      commented.text lexemes = written ∧ plain.text lexemes = "let x = 7") ∧
    (tokenize written).tokens.map (fun token => (token.kind, token.text, token.pos)) =
      [(.letWord, "let", 7), (.ident, "x", 16), (.eq, "=", 18), (.int, "7", 20), (.eof, "", 28)] ∧
    (∀ parsing, (Program.expressions parsing written).1 =
      (Program.expressions parsing "let x = 7").1) ∧
    ∀ limits scope store,
      (outcome (Program.interpret limits written scope) store).map
          (Except.mapError Fault.unplaced) id =
        (outcome (Program.interpret limits "let x = 7" scope) store).map
          (Except.mapError Fault.unplaced) id := by
  intro written
  let lexemes : List Lexeme :=
    [⟨.letWord, "let", .inl rfl⟩,
      ⟨.ident, "x", .inr (.inr ⟨rfl,
        Kind.mem_language_ident.2 ⟨'x', [], by decide, by decide, by simp⟩,
        fun other => by cases other <;> decide⟩)⟩,
      ⟨.eq, "=", .inl rfl⟩,
      ⟨.int, "7", .inr (.inl ⟨rfl,
        Kind.mem_language_int.2 (.inr ⟨'7', [], by decide, by decide, by decide, by simp⟩),
        by decide +kernel⟩)⟩]
  let space : Spacing := { first := ' ', isSpace_first := rfl, others := [] }
  let broken : Spacing :=
    { first := '\n', isSpace_first := rfl
      others := [.line [' ', 'b'] '\n' (by simp [endsLine]) rfl] }
  let commented : Lexer.Layout :=
    { lead := [.block [' ', 'a', ' '] (by decide)]
      gap := fun i => if i = 0 then broken else space
      trail := .comment space [' ', 'e', 'n', 'd'] (by simp [endsLine]) }
  let plain : Lexer.Layout := { lead := [], gap := fun _ => space, trail := .nothing }
  have hcommented : commented.text lexemes = written := by decide +kernel
  have hplain : plain.text lexemes = "let x = 7" := by decide +kernel
  have htokens : commented.tokens lexemes =
      [⟨.letWord, "let", 7⟩, ⟨.ident, "x", 16⟩, ⟨.eq, "=", 18⟩, ⟨.int, "7", 20⟩,
        ⟨.eof, "", 28⟩] := by
    decide +kernel
  clear_value commented plain lexemes
  obtain ⟨hread, -, -, -⟩ := reading_undoes_layout lexemes commented plain
  obtain ⟨-, -, hexprs, hruns⟩ := reading_undoes_layout lexemes plain commented
  rw [hcommented] at hread hexprs hruns
  rw [hplain] at hexprs hruns
  refine ⟨⟨lexemes, commented, plain, hcommented, hplain⟩, ?_, fun parsing => (hexprs parsing).1,
    hruns⟩
  rw [hread, htokens]
  rfl

end LetLang
