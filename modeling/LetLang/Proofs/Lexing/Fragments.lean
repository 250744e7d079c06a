import Mathlib.Order.CompletePartialOrder
import LetLang.Proofs.Lexing.Layouts
/-!
# Fragments

A fragment of a text is read as the same tokens wherever it stands, as long as it does not run into
what follows it. Fragments one after the other are read as their tokens one after the other; only
the places of the tokens depend on what comes before.
-/
namespace LetLang.Lexer

/-- The one token that a lexeme is read as, at any place. -/
def spelling (kind : Kind) (text : String) : Language Token :=
  {ts | ∃ pos, ts = [{ kind, text, pos }]}

theorem mem_spelling_mul {kind : Kind} {text : String} {tokens : Language Token} {ts : List Token} :
    ts ∈ spelling kind text * tokens ↔
      ∃ pos, ∃ q ∈ tokens, ts = { kind, text, pos } :: q := by
  rw [Language.mem_mul]
  constructor
  · rintro ⟨_, ⟨pos, rfl⟩, q, hq, rfl⟩
    exact ⟨pos, q, hq, rfl⟩
  · rintro ⟨pos, q, hq, rfl⟩
    exact ⟨[_], ⟨pos, rfl⟩, q, hq, rfl⟩

/-- From any offset on, the text is made of tokens of the language. -/
def Reads (cs : List Char) (tokens : Language Token) : Prop :=
  ∀ pos, ∃ ts ∈ tokens, Splits pos cs ts

/-- The fragment is read as tokens of the language before every text. If it is not closed, then the
text after it has to be walled off: it is empty, or begins with a barrier. -/
def Fragment (closed : Bool) (text : List Char) (tokens : Language Token) : Prop :=
  ∀ rest following, (closed = false → ∀ c ∈ rest.head?, isBarrier c = true) →
    Reads rest following → Reads (text ++ rest) (tokens * following)

variable {closed closed' : Bool} {text text' gap : List Char} {tokens tokens' : Language Token}

theorem reads_nil : Reads [] (spelling .eof "") :=
  fun pos => ⟨_, ⟨pos, rfl⟩, .eof .nil⟩

namespace Fragment

theorem imp (h : Fragment closed text tokens) (hle : tokens ≤ tokens') :
    Fragment closed text tokens' := by
  intro rest following hwall hrest pos
  obtain ⟨ts, hts, hsplits⟩ := h rest following hwall hrest pos
  obtain ⟨p, hp, q, hq, rfl⟩ := Language.mem_mul.1 hts
  exact ⟨p ++ q, Language.append_mem_mul (hle hp) hq, hsplits⟩

theorem unclosed (h : Fragment closed text tokens) : Fragment false text tokens :=
  fun rest following hwall => h rest following fun _ => hwall rfl

/-- A fragment that is not closed is closed by one that begins with a barrier. -/
theorem append (h : Fragment closed text tokens) (h' : Fragment closed' text' tokens')
    (hwall : closed = false → text'.head?.any isBarrier = true) :
    Fragment closed' (text ++ text') (tokens * tokens') := by
  intro rest following hwall' hrest
  rw [List.append_assoc, mul_assoc]
  apply h
  · intro hclosed c hc
    have hbarrier := hwall hclosed
    cases text' with
    | nil => cases hbarrier
    | cons d text' =>
      cases hc
      exact hbarrier
  · exact h' rest following hwall' hrest

/-- A lexeme is a fragment, and a closed one if it is a barrier itself. -/
theorem lexeme (lexeme : Lexeme) (hgap : Continues gap)
    (hclosed : closed = true → ∃ d, lexeme.text.toList = [d] ∧ isBarrier d = true) :
    Fragment closed (gap ++ lexeme.text.toList) (spelling lexeme.kind lexeme.text) := by
  intro rest following hwall hrest pos
  obtain ⟨ts, hts, hsplits⟩ := hrest (pos + gap.length + lexeme.text.length)
  have hfenced : Fenced lexeme.text.toList rest := by
    intro c hc
    cases closed with
    | false => exact .inl (hwall rfl c hc)
    | true => exact .inr (hclosed rfl)
  refine ⟨_, Language.append_mem_mul ⟨pos + gap.length, rfl⟩ hts, ?_⟩
  rw [List.append_assoc]
  exact splits_lexeme lexeme hgap hfenced hsplits

theorem fixed (kind : Kind) {text : String} (h : kind.fixedText = some text)
    (hgap : Continues gap) : Fragment false (gap ++ text.toList) (spelling kind text) :=
  lexeme ⟨kind, text, .inl h⟩ hgap (by simp)

theorem barrier {kind : Kind} {c : Char} {text : String} (h : kind.fixedText = some text)
    (htext : text.toList = [c]) (hbarrier : isBarrier c = true) (hgap : Continues gap) :
    Fragment true (gap ++ text.toList) (spelling kind text) :=
  lexeme ⟨kind, text, .inl h⟩ hgap fun _ => ⟨c, htext, hbarrier⟩

end Fragment

theorem continues_nil : Continues [] :=
  fun _ _ hmore => hmore

theorem continues_blank : Continues [' '] :=
  continues_space rfl

end LetLang.Lexer
