import Mathlib.Data.Nat.Digits.Lemmas
import Mathlib.Tactic.Ring
import LetLang.Text.Numeral
/-!
# The numbers of numerals

A numeral denotes the number that its decimal digits make up, and a numeral that is not too long
denotes a number that is not too long to be written.
-/
namespace LetLang.Numeral

def digit (c : Char) : Nat :=
  c.toNat - '0'.toNat

theorem foldl_digits (digits : List Char) (n : Nat) :
    digits.foldl (fun n c => 10 * n + (c.toNat - '0'.toNat)) n =
      Nat.ofDigits 10 (digits.reverse.map digit) + 10 ^ digits.length * n := by
  induction digits generalizing n with
  | nil => simp
  | cons c digits ih =>
    rw [List.foldl_cons, ih, List.reverse_cons, List.map_append, Nat.ofDigits_append]
    simp only [List.length_map, List.length_reverse, List.map_cons, List.map_nil,
      Nat.ofDigits_singleton, List.length_cons, digit, pow_succ]
    ring

/-- A numeral has the value of its digits in base ten, the last of them being the lowest. -/
theorem value_eq_ofDigits (digits : List Char) :
    value digits = Nat.ofDigits 10 (digits.reverse.map digit) := by
  rw [value, foldl_digits, Nat.mul_zero, Nat.add_zero]

theorem digit_lt {c : Char} (h : isDigit c = true) : digit c < 10 := by
  simp only [isDigit, Bool.and_eq_true, decide_eq_true_eq] at h
  have hle : c.toNat ≤ '9'.toNat := UInt32.le_iff_toNat_le.1 h.2
  have hnine : '9'.toNat = 57 := rfl
  have hzero : '0'.toNat = 48 := rfl
  rw [digit]
  omega

theorem value_lt_bound {digits : List Char} (h : ∀ c ∈ digits, isDigit c = true)
    (hlength : digits.length ≤ digitLimit) : value digits < bound := by
  have hlt : value digits < 10 ^ (digits.reverse.map digit).length := by
    rw [value_eq_ofDigits]
    apply Nat.ofDigits_lt_base_pow_length (by decide)
    intro n hn
    obtain ⟨c, hc, rfl⟩ := List.mem_map.1 hn
    exact digit_lt (h c (List.mem_reverse.1 hc))
  have hle : 10 ^ (digits.reverse.map digit).length ≤ bound := by
    rw [List.length_map, List.length_reverse]
    unfold bound
    -- The power is too large to be computed, whatever the limit is.
    generalize digitLimit = limit at hlength ⊢
    exact Nat.pow_le_pow_right (by decide) hlength
  exact Nat.lt_of_lt_of_le hlt hle

/-- A natural number is written without a sign. -/
@[simp] theorem text_natCast (n : Nat) : text n = Nat.repr n := by
  simp [text]

/-- The number has more digits than a numeral may have. -/
def TooLong (n : Int) : Prop :=
  digitLimit < (Nat.digits 10 n.natAbs).length

instance (n : Int) : Decidable (TooLong n) :=
  inferInstanceAs (Decidable (_ < _))

/-- Only numbers with too many digits cannot be written. -/
theorem text?_eq_none_iff {n : Int} : text? n = none ↔ TooLong n := by
  unfold TooLong text? bound
  generalize digitLimit = limit
  rw [Nat.lt_digits_length_iff (by decide)]
  simp

/-! ### The numerals of numbers -/

/-- A numeral that is written is read as its number. -/
theorem value_repr (n : Nat) : value (Nat.repr n).toList = n := by
  rw [Nat.toList_repr]
  exact Nat.ofDigitChars_toDigits (by decide) (by decide)

theorem length_repr_le {n : Nat} (h : ¬ TooLong n) : (Nat.repr n).length ≤ digitLimit := by
  rw [← String.length_toList, Nat.toList_repr, Nat.length_toDigits_le_iff (by decide) (by decide)]
  unfold TooLong at h
  generalize digitLimit = limit at h ⊢
  rw [Nat.lt_digits_length_iff (by decide)] at h
  simpa using h

theorem isDigit_of_mem_repr {n : Nat} {c : Char} (h : c ∈ (Nat.repr n).toList) :
    isDigit c = true := by
  rw [Nat.toList_repr] at h
  have hdigit := Nat.isDigit_of_mem_toDigits (by decide) (by decide) h
  simpa [Char.isDigit, isDigit, Char.le_def] using hdigit

/-- Only zero has a numeral that begins with a zero. -/
theorem exists_repr_eq_cons {n : Nat} (h : 0 < n) :
    ∃ c rest, (Nat.repr n).toList = c :: rest ∧ c ≠ '0' := by
  rw [Nat.toList_repr]
  induction n using Nat.strongRecOn with
  | ind n ih =>
    rw [Nat.toDigits_eq_if (by decide)]
    split
    case isTrue hlt =>
      have hdigits : ∀ n < 10, 0 < n → Nat.digitChar n ≠ '0' := by decide
      exact ⟨_, [], rfl, hdigits n hlt h⟩
    case isFalse hge =>
      obtain ⟨c, rest, hdigits, hc⟩ := ih (n / 10) (by omega) (by omega)
      exact ⟨c, rest ++ [Nat.digitChar (n % 10)], by rw [hdigits, List.cons_append], hc⟩

theorem digitChar_digit {c : Char} (h : isDigit c = true) : Nat.digitChar (digit c) = c := by
  have hlt := digit_lt h
  apply Char.toNat_inj.1
  rw [Nat.toNat_digitChar_of_lt_ten hlt, digit]
  simp only [isDigit, Bool.and_eq_true, decide_eq_true_eq] at h
  have hle : '0'.toNat ≤ c.toNat := UInt32.le_iff_toNat_le.1 h.1
  have hzero : '0'.toNat = 48 := rfl
  omega

/-- Digits that are read behind the numeral of a number stand behind it when they are written. -/
theorem toDigits_foldl {digits : List Char} (h : ∀ c ∈ digits, isDigit c = true) {n : Nat}
    (hn : 0 < n) :
    Nat.toDigits 10 (digits.foldl (fun n c => 10 * n + (c.toNat - '0'.toNat)) n) =
      Nat.toDigits 10 n ++ digits := by
  induction digits generalizing n with
  | nil => simp
  | cons c digits ih =>
    rw [List.forall_mem_cons] at h
    have hlast := Nat.toDigits_append_toDigits (b := 10) (by decide) hn (digit_lt h.1)
    rw [Nat.toDigits_of_lt_base (digit_lt h.1), digitChar_digit h.1] at hlast
    rw [List.foldl_cons, ih h.2 (by omega), ← digit, ← hlast]
    simp

/-- A numeral without a zero in front is the one that its number has. -/
theorem toDigits_value {c : Char} {digits : List Char} (hzero : c ≠ '0') (hc : isDigit c = true)
    (h : ∀ d ∈ digits, isDigit d = true) :
    Nat.toDigits 10 (value (c :: digits)) = c :: digits := by
  have hpos : 0 < digit c := by
    rw [Nat.pos_iff_ne_zero]
    intro hnone
    have hchar := digitChar_digit hc
    rw [hnone] at hchar
    exact hzero hchar.symm
  have hvalue := toDigits_foldl h hpos
  rw [Nat.toDigits_of_lt_base (digit_lt hc), digitChar_digit hc] at hvalue
  simpa [value, digit] using hvalue

end LetLang.Numeral
