import Mathlib.Algebra.Group.Nat.Defs
import ServiceDirectory.Number.Literal
import ServiceDirectory.Time.Timestamp

/-! Whole numbers in digits: the digits of a number give the number back, with zeros before them or
without. -/
namespace ServiceDirectory.Number

def Ends (rest : List Char) : Prop := ∀ c more, rest = c :: more → isDigit c = false

theorem endsNil : Ends [] := fun _ _ same => by cases same

theorem endsBefore {c : Char} (other : isDigit c = false) (rest : List Char) :
    Ends (c :: rest) := by
  intro d more same
  cases same
  exact other

theorem takeDigits {digits rest : List Char} (all : ∀ c ∈ digits, isDigit c = true)
    (ends : Ends rest) : (digits ++ rest).takeWhile isDigit = digits := by
  rw [List.takeWhile_append_of_pos all]
  cases rest with
  | nil => simp
  | cons c more => simp [ends c more rfl]

theorem dropDigits {digits rest : List Char} (all : ∀ c ∈ digits, isDigit c = true)
    (ends : Ends rest) : (digits ++ rest).dropWhile isDigit = rest := by
  rw [List.dropWhile_append_of_pos all]
  cases rest with
  | nil => rfl
  | cons c more => simp [ends c more rfl]

theorem digitRange {c : Char} (digit : isDigit c = true) : 48 ≤ c.toNat ∧ c.toNat ≤ 57 := by
  simp only [isDigit, Bool.and_eq_true, decide_eq_true_eq] at digit
  exact digit

theorem digitNot {c d : Char} (digit : isDigit c = true) (other : isDigit d = false) : c ≠ d := by
  rintro rfl
  rw [digit] at other
  cases other

theorem naturalOfDigits (n : Nat) : naturalOf (Nat.toDigits 10 n) = n :=
  Nat.ofDigitChars_ten_toDigits

theorem digitsOf (n : Nat) : ∀ c ∈ Nat.toDigits 10 n, isDigit c = true := by
  intro c inside
  have digit := Nat.isDigit_of_mem_toDigits (by decide) (by decide) inside
  simpa [Char.isDigit, isDigit, Char.le_def] using digit

theorem digitsLead (n : Nat) :
    Nat.toDigits 10 n = ['0'] ∨ (Nat.toDigits 10 n).head? ≠ some '0' := by
  induction n using Nat.strongRecOn with
  | ind n ih =>
    by_cases small : n < 10
    · have one : ∀ d < 10, [Nat.digitChar d] = ['0'] ∨ [Nat.digitChar d].head? ≠ some '0' := by
        decide
      rw [Nat.toDigits_of_lt_base small]
      exact one n small
    · rw [Nat.toDigits_of_base_le (by decide) (Nat.not_lt.mp small)]
      right
      rcases ih (n / 10) (by omega) with zero | lead
      · have back := naturalOfDigits (n / 10)
        rw [zero] at back
        have none : n / 10 = 0 := back.symm
        omega
      · obtain ⟨c, more, same⟩ :=
          List.exists_cons_of_ne_nil (Nat.toDigits_ne_nil (n := n / 10) (b := 10))
        rw [same] at lead ⊢
        exact lead

end ServiceDirectory.Number

namespace ServiceDirectory.Timestamp
open Number (isDigit naturalOf)

theorem paddedChars (width n : Nat) : (padded width n).toList =
    List.replicate (width - (Nat.toDigits 10 n).length) '0' ++ Nat.toDigits 10 n := by
  simp [padded]

theorem naturalOfPadded (width n : Nat) : naturalOf (padded width n).toList = n := by
  rw [paddedChars]
  calc naturalOf (List.replicate (width - (Nat.toDigits 10 n).length) '0' ++ Nat.toDigits 10 n)
    _ = Nat.ofDigitChars 10 (Nat.toDigits 10 n)
          (Nat.ofDigitChars 10 (List.replicate (width - (Nat.toDigits 10 n).length) '0') 0) :=
        Nat.ofDigitChars_append 0
    _ = Nat.ofDigitChars 10 (Nat.toDigits 10 n) 0 := by
        rw [Nat.ofDigitChars_replicate_zero, Nat.mul_zero]
    _ = n := Nat.ofDigitChars_ten_toDigits

theorem paddedDigits (width n : Nat) : ∀ c ∈ (padded width n).toList, isDigit c = true := by
  intro c inside
  rw [paddedChars, List.mem_append] at inside
  rcases inside with zero | digit
  · rw [List.eq_of_mem_replicate zero]
    rfl
  · exact Number.digitsOf n c digit

theorem paddedLength {width n : Nat} (some : 0 < width) (fits : n < 10 ^ width) :
    (padded width n).toList.length = width := by
  have short := (Nat.length_toDigits_le_iff (b := 10) (by decide) some).mpr fits
  rw [paddedChars, List.length_append, List.length_replicate]
  omega

theorem paddedSome (width n : Nat) : (padded width n).toList ≠ [] := by
  rw [paddedChars]
  exact List.append_ne_nil_of_right_ne_nil _ Nat.toDigits_ne_nil

end ServiceDirectory.Timestamp
