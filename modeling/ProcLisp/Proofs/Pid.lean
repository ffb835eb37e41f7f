import Mathlib.Algebra.Group.Nat.Defs
import Mathlib.Tactic.Ring
import ProcLisp.Pid

/-!
# Pids read back

A pid of 128 bits is read back from the text that it is printed as, so the text tells it from all
others.
-/

namespace ProcLisp

namespace Bytes

theorem hexValue?_hexDigit {n : Nat} (small : n < 16) : hexValue? (hexDigit n) = some n := by
  have digits : ∀ d : Fin 16, hexValue? (hexDigit d) = some d.val := by decide
  exact digits ⟨n, small⟩

theorem length_hex (width n : Nat) : (hex width n).length = width := by simp [hex]

theorem hex_succ (width n : Nat) :
    hex (width + 1) n = hexDigit (n / 16 ^ width % 16) :: hex width n := by
  simp only [hex, List.range_succ_eq_map, List.map_cons, List.map_map, Function.comp_def]
  congr 1
  refine List.map_congr_left fun i _ => ?_
  rw [show width + 1 - 1 - (i + 1) = width - 1 - i by omega]

end Bytes

namespace Pid

variable {p q : Pid}

/-- A pid that its 32 digits tell from all others. -/
def Fits (p : Pid) : Prop := p.val < 2 ^ 128

instance (p : Pid) : Decidable p.Fits := inferInstanceAs (Decidable (p.val < 2 ^ 128))

/-- Digits are read from the most significant one, after those read already. -/
theorem foldlM_hex (width n before : Nat) :
    (Bytes.hex width n).foldlM (fun n c => (Bytes.hexValue? c).map (16 * n + ·)) before =
      some (16 ^ width * before + n % 16 ^ width) := by
  induction width generalizing before with
  | zero => simp [Bytes.hex, Nat.mod_one]
  | succ width ih =>
    have digit := Bytes.hexValue?_hexDigit (Nat.mod_lt (n / 16 ^ width) (by decide : 16 > 0))
    rw [Bytes.hex_succ, List.foldlM_cons, digit]
    simp only [Option.map_some, Option.bind_eq_bind, Option.bind_some, ih, Nat.mod_pow_succ]
    ring_nf

theorem ofDigits?_hex (fits : p.Fits) : ofDigits? (Bytes.hex 32 p.val) = some p := by
  rw [ofDigits?, foldlM_hex, show 16 ^ 32 = 2 ^ 128 by decide, Nat.mod_eq_of_lt fits]
  simp

theorem undashed?_dashed {digits : Bytes} (long : digits.length = 32) :
    undashed? (dashed digits) = some digits := by
  have piece : ∀ k, (digits.drop k).take 4 ++ digits.drop (k + 4) = digits.drop k := fun k => by
    rw [← List.drop_drop, List.take_append_drop]
  have whole : digits.take 8 ++ ((digits.drop 8).take 4 ++ ((digits.drop 12).take 4 ++
      ((digits.drop 16).take 4 ++ digits.drop 20))) = digits := by
    rw [piece 16, piece 12, piece 8, List.take_append_drop]
  have last : (digits.drop 20).take 12 = digits.drop 20 := List.take_of_length_le (by simp [long])
  simp [undashed?, dashed, long, List.drop_append, List.drop_take, last, whole]

theorem parse_toBytes (fits : p.Fits) : parse p.toBytes = .ok p := by
  have long : (Bytes.hex 32 p.val).length = 32 := Bytes.length_hex 32 p.val
  have length : p.toBytes.length = 36 := by simp [toBytes, dashed, long]
  rw [parse, length]
  simp only [readDashed, toBytes, undashed?_dashed long, ofDigits?_hex fits]

theorem toBytes_inj (fits : p.Fits) (fits' : q.Fits) (same : p.toBytes = q.toBytes) : p = q := by
  have read := parse_toBytes fits
  rw [same, parse_toBytes fits'] at read
  exact (Except.ok.inj read).symm

end Pid
end ProcLisp
