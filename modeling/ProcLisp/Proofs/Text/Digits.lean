import Mathlib.Data.List.Basic
import ProcLisp.Reader.Scan

/-!
# Numbers and their digits

A number is read back from its decimal digits and its sign, and no number is written like a boolean.
-/

namespace ProcLisp

namespace Bytes

theorem isDigit_iff {c : UInt8} : isDigit c ↔ 0x30 ≤ c.toNat ∧ c.toNat ≤ 0x39 := by
  simp [isDigit, UInt8.le_iff_toNat_le]

theorem digit_toNat {c : Char} (digit : c.isDigit) :
    0x30 ≤ c.toNat ∧ c.toNat ≤ 0x39 ∧ c.toNat.toUInt8.toNat = c.toNat := by
  have bounds : 0x30 ≤ c.toNat ∧ c.toNat ≤ 0x39 := by
    simpa [Char.isDigit, UInt32.le_iff_toNat_le] using digit
  exact ⟨bounds.1, bounds.2, UInt8.toNat_ofNat_of_lt' (Nat.lt_of_le_of_lt bounds.2 (by decide))⟩

theorem isDigit_of_mem_ofNat {n : Nat} {c : UInt8} (member : c ∈ ofNat n) : isDigit c := by
  obtain ⟨d, among, rfl⟩ := List.mem_map.mp member
  have digit := digit_toNat (Nat.isDigit_of_mem_toDigits (by decide) (by decide) among)
  rw [isDigit_iff, digit.2.2]
  exact ⟨digit.1, digit.2.1⟩

theorem ofNat_ne_nil (n : Nat) : ofNat n ≠ [] := by
  simp [ofNat]

theorem toNat?_ofNat (n : Nat) : toNat? (ofNat n) = some n := by
  have digits : (ofNat n).all isDigit := List.all_eq_true.mpr fun c => isDigit_of_mem_ofNat
  have filled : (ofNat n).isEmpty = false := by simpa using ofNat_ne_nil n
  have value := Nat.ofDigitChars_ten_toDigits (n := n)
  rw [Nat.ofDigitChars_eq_foldl] at value
  rw [toNat?, if_neg (by simp [digits, filled]), ofNat, List.foldl_map]
  refine congrArg some (Eq.trans (List.foldl_ext _ _ _ fun m c member => ?_) value)
  have digit := digit_toNat (Nat.isDigit_of_mem_toDigits (by decide) (by decide) member)
  simp [digit.2.2]

/-- A run of digits starts with no sign. -/
theorem toInt?_of_digits {s : Bytes} (digits : ∀ c ∈ s, isDigit c) :
    toInt? s = (toNat? s).map Int.ofNat := by
  unfold toInt?
  split
  · exact absurd (digits 0x2b (by simp)) (by decide)
  · exact absurd (digits 0x2d (by simp)) (by decide)
  · rfl

theorem toInt?_ofInt (n : Int) : toInt? (ofInt n) = some n := by
  cases n with
  | ofNat n => simp [ofInt, toInt?_of_digits fun c => isDigit_of_mem_ofNat, toNat?_ofNat]
  | negSucc n => simp [ofInt, toInt?, toNat?_ofNat, Int.negSucc_eq]

/-- The bytes that numbers are written with. -/
theorem mem_ofInt {n : Int} {c : UInt8} (member : c ∈ ofInt n) : isDigit c ∨ c = 0x2d := by
  cases n with
  | ofNat n => exact .inl (isDigit_of_mem_ofNat member)
  | negSucc n =>
    rcases List.mem_cons.mp member with sign | digit
    · exact .inr sign
    · exact .inl (isDigit_of_mem_ofNat digit)

theorem ofInt_ne_nil (n : Int) : ofInt n ≠ [] := by
  cases n with
  | ofNat n => exact ofNat_ne_nil n
  | negSucc n => simp [ofInt]

end Bytes

namespace Reader

theorem int?_ofInt (n : Int64) : int? (Bytes.ofInt n.toInt) = some n := by
  have least := n.le_toInt
  have most := n.toInt_lt
  simp only [int?, Bytes.toInt?_ofInt]
  rw [if_pos (by simp only [Int64.toInt_minValue, Int64.toInt_maxValue]; omega), Int64.ofInt_toInt]

/-- A number starts with neither the sign nor the letter of a boolean. -/
theorem atomValue_ofInt (n : Int64) : atomValue (Bytes.ofInt n.toInt) = .int n := by
  have other : ∀ c rest, ¬ (Bytes.isDigit c ∨ c = 0x2d) → Bytes.ofInt n.toInt ≠ c :: rest := by
    intro c rest sign same
    exact sign (Bytes.mem_ofInt (n := n.toInt) (by simp [same]))
  rw [atomValue, if_neg, if_neg, int?_ofInt]
  · exact not_or.mpr ⟨other _ _ (by decide), other _ _ (by decide)⟩
  · exact not_or.mpr ⟨other _ _ (by decide), other _ _ (by decide)⟩

end Reader
end ProcLisp
