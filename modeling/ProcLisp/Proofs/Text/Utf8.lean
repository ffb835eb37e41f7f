import ProcLisp.Text.Utf8

/-!
# Cutting and joining UTF-8

The pieces of a byte string make it up again, and the sequences of scalar values, one after the
other, are cut into just these values. So nothing is lost in either direction.
-/

namespace ProcLisp.Utf8

/-- The codes that a well-formed sequence stands for: all but the surrogates. -/
def IsScalar (code : Nat) : Prop := code < 0xd800 ∨ 0xdfff < code ∧ code < 0x110000

theorem toUInt8_eq {n : Nat} {b : UInt8} (same : n = b.toNat) : n.toUInt8 = b := by
  rw [same]
  exact UInt8.ofNat_toNat

theorem toNat_toUInt8 {n : Nat} (small : n < 256) : n.toUInt8.toNat = n :=
  UInt8.toNat_ofNat_of_lt' small

theorem isTail_iff {c : UInt8} : isTail c ↔ 0x80 ≤ c.toNat ∧ c.toNat ≤ 0xbf := by
  simp [isTail, UInt8.le_iff_toNat_le]

/-! ### Sequences of two, three and four bytes -/

theorem two?_some {b c : UInt8} {code : Nat} (read : two? b c = some code) :
    encode code = [b, c] ∧ IsScalar code := by
  unfold two? tailBits at read
  split at read
  · rename_i lead
    simp only [Bool.and_eq_true, decide_eq_true_eq, UInt8.le_iff_toNat_le, UInt8.reduceToNat,
      isTail_iff] at lead
    obtain rfl := Option.some.inj read
    refine ⟨?_, by unfold IsScalar; omega⟩
    rw [encode, if_neg (by omega), if_pos (by omega), toUInt8_eq (b := b) (by omega),
      toUInt8_eq (b := c) (by omega)]
  · simp at read

theorem three?_some {b c d : UInt8} {code : Nat} (read : three? b c d = some code) :
    encode code = [b, c, d] ∧ IsScalar code := by
  unfold three? tailBits at read
  split at read
  · rename_i lead
    simp only [Bool.and_eq_true, decide_eq_true_eq, UInt8.le_iff_toNat_le, UInt8.reduceToNat,
      isTail_iff] at lead
    simp only at read
    split at read
    · simp at read
    · rename_i fits
      simp only [Bool.or_eq_true, Bool.and_eq_true, decide_eq_true_eq] at fits
      obtain rfl := Option.some.inj read
      refine ⟨?_, by unfold IsScalar; omega⟩
      rw [encode, if_neg (by omega), if_neg (by omega), if_pos (by omega),
        toUInt8_eq (b := b) (by omega), toUInt8_eq (b := c) (by omega),
        toUInt8_eq (b := d) (by omega)]
  · simp at read

theorem four?_some {b c d e : UInt8} {code : Nat} (read : four? b c d e = some code) :
    encode code = [b, c, d, e] ∧ IsScalar code := by
  unfold four? tailBits at read
  split at read
  · rename_i lead
    simp only [Bool.and_eq_true, decide_eq_true_eq, UInt8.le_iff_toNat_le, UInt8.reduceToNat,
      isTail_iff] at lead
    simp only at read
    split at read
    · simp at read
    · rename_i fits
      simp only [Bool.or_eq_true, decide_eq_true_eq] at fits
      obtain rfl := Option.some.inj read
      refine ⟨?_, by unfold IsScalar; omega⟩
      rw [encode, if_neg (by omega), if_neg (by omega), if_neg (by omega),
        toUInt8_eq (b := b) (by omega), toUInt8_eq (b := c) (by omega),
        toUInt8_eq (b := d) (by omega), toUInt8_eq (b := e) (by omega)]
  · simp at read

theorem encode_ascii {b : UInt8} (ascii : b < 0x80) : encode b.toNat = [b] := by
  rw [encode, if_pos (by simpa [UInt8.lt_iff_toNat_lt] using ascii), toUInt8_eq rfl]

/-! ### From bytes to pieces and back -/

theorem pieces_bytes (s : Bytes) : (pieces s).flatMap Piece.bytes = s := by
  fun_induction pieces s with
  | case1 => rfl
  | case2 b rest ascii ih => simp [Piece.bytes, encode_ascii ascii, ih]
  | case3 b => rfl
  | case4 b _ c rest code read ih => simp [Piece.bytes, (two?_some read).1, ih]
  | case5 b _ c _ ih => simpa [Piece.bytes] using ih
  | case6 b _ c _ d rest code read ih => simp [Piece.bytes, (three?_some read).1, ih]
  | case7 b _ c _ d _ ih => simpa [Piece.bytes] using ih
  | case8 b _ c _ d _ e rest code read ih => simp [Piece.bytes, (four?_some read).1, ih]
  | case9 b _ c _ d _ e rest _ ih => simpa [Piece.bytes] using ih

/-- A scalar value is one that sequences stand for. -/
def Piece.Formed : Piece → Prop
  | .scalar code => IsScalar code
  | .stray _ => True

theorem pieces_formed (s : Bytes) : ∀ p ∈ pieces s, p.Formed := by
  fun_induction pieces s with
  | case1 => simp
  | case2 b rest ascii ih =>
    have := b.toNat_lt
    refine List.forall_mem_cons.mpr ⟨?_, ih⟩
    unfold Piece.Formed IsScalar
    omega
  | case3 b => simp [Piece.Formed]
  | case4 b _ c rest code read ih => exact List.forall_mem_cons.mpr ⟨(two?_some read).2, ih⟩
  | case5 b _ c _ ih => exact List.forall_mem_cons.mpr ⟨trivial, ih⟩
  | case6 b _ c _ d rest code read ih =>
    exact List.forall_mem_cons.mpr ⟨(three?_some read).2, ih⟩
  | case7 b _ c _ d _ ih => exact List.forall_mem_cons.mpr ⟨trivial, ih⟩
  | case8 b _ c _ d _ e rest code read ih =>
    exact List.forall_mem_cons.mpr ⟨(four?_some read).2, ih⟩
  | case9 b _ c _ d _ e rest _ ih => exact List.forall_mem_cons.mpr ⟨trivial, ih⟩

/-! ### From scalar values to bytes and back -/

theorem two?_encode {code : Nat} (least : 0x80 ≤ code) (most : code < 0x800) :
    two? (0xc0 + code / 64).toUInt8 (0x80 + code % 64).toUInt8 = some code := by
  have lead := toNat_toUInt8 (n := 0xc0 + code / 64) (by omega)
  have tail := toNat_toUInt8 (n := 0x80 + code % 64) (by omega)
  generalize (0xc0 + code / 64).toUInt8 = b, (0x80 + code % 64).toUInt8 = c at lead tail ⊢
  have formed : 0xc2 ≤ b && b ≤ 0xdf && isTail c := by
    simp only [Bool.and_eq_true, decide_eq_true_eq, UInt8.le_iff_toNat_le, UInt8.reduceToNat,
      isTail_iff]
    omega
  have value : (b.toNat - 0xc0) * 64 + tailBits c = code := by unfold tailBits; omega
  unfold two?
  rw [if_pos formed]
  exact congrArg some value

theorem three?_encode {code : Nat} (least : 0x800 ≤ code) (most : code < 0x10000)
    (scalar : IsScalar code) :
    three? (0xe0 + code / 4096).toUInt8 (0x80 + code / 64 % 64).toUInt8
      (0x80 + code % 64).toUInt8 = some code := by
  have lead := toNat_toUInt8 (n := 0xe0 + code / 4096) (by omega)
  have second := toNat_toUInt8 (n := 0x80 + code / 64 % 64) (by omega)
  have third := toNat_toUInt8 (n := 0x80 + code % 64) (by omega)
  generalize (0xe0 + code / 4096).toUInt8 = b, (0x80 + code / 64 % 64).toUInt8 = c,
    (0x80 + code % 64).toUInt8 = d at lead second third ⊢
  have formed : 0xe0 ≤ b && b ≤ 0xef && isTail c && isTail d := by
    simp only [Bool.and_eq_true, decide_eq_true_eq, UInt8.le_iff_toNat_le, UInt8.reduceToNat,
      isTail_iff]
    omega
  have value : ((b.toNat - 0xe0) * 64 + tailBits c) * 64 + tailBits d = code := by
    unfold tailBits
    omega
  have fits : ¬ (code < 0x800 || (0xd800 ≤ code && code ≤ 0xdfff)) = true := by
    unfold IsScalar at scalar
    simp only [Bool.or_eq_true, Bool.and_eq_true, decide_eq_true_eq]
    omega
  unfold three?
  rw [if_pos formed, value, if_neg fits]

theorem four?_encode {code : Nat} (least : 0x10000 ≤ code) (most : code < 0x110000) :
    four? (0xf0 + code / 262144).toUInt8 (0x80 + code / 4096 % 64).toUInt8
      (0x80 + code / 64 % 64).toUInt8 (0x80 + code % 64).toUInt8 = some code := by
  have lead := toNat_toUInt8 (n := 0xf0 + code / 262144) (by omega)
  have second := toNat_toUInt8 (n := 0x80 + code / 4096 % 64) (by omega)
  have third := toNat_toUInt8 (n := 0x80 + code / 64 % 64) (by omega)
  have fourth := toNat_toUInt8 (n := 0x80 + code % 64) (by omega)
  generalize (0xf0 + code / 262144).toUInt8 = b, (0x80 + code / 4096 % 64).toUInt8 = c,
    (0x80 + code / 64 % 64).toUInt8 = d, (0x80 + code % 64).toUInt8 = e
    at lead second third fourth ⊢
  have formed : 0xf0 ≤ b && b ≤ 0xf4 && isTail c && isTail d && isTail e := by
    simp only [Bool.and_eq_true, decide_eq_true_eq, UInt8.le_iff_toNat_le, UInt8.reduceToNat,
      isTail_iff]
    omega
  have value : (((b.toNat - 0xf0) * 64 + tailBits c) * 64 + tailBits d) * 64 + tailBits e =
      code := by
    unfold tailBits
    omega
  have fits : ¬ (code < 0x10000 || 0x110000 ≤ code) = true := by
    simp only [Bool.or_eq_true, decide_eq_true_eq]
    omega
  unfold four?
  rw [if_pos formed, value, if_neg fits]

theorem two?_of_long {b : UInt8} (long : 0xe0 ≤ b.toNat) (c : UInt8) : two? b c = none := by
  simp only [two?, UInt8.le_iff_toNat_le, UInt8.reduceToNat]
  rw [if_neg]
  simp only [Bool.and_eq_true, decide_eq_true_eq]
  omega

theorem three?_of_long {b : UInt8} (long : 0xf0 ≤ b.toNat) (c d : UInt8) :
    three? b c d = none := by
  simp only [three?, UInt8.le_iff_toNat_le, UInt8.reduceToNat]
  rw [if_neg]
  simp only [Bool.and_eq_true, decide_eq_true_eq]
  omega

theorem not_ascii {n : Nat} (least : 0x80 ≤ n) (most : n < 256) : ¬ n.toUInt8 < 0x80 := by
  rw [UInt8.lt_iff_toNat_lt, toNat_toUInt8 most]
  exact Nat.not_lt.mpr least

theorem pieces_encode_append {code : Nat} (scalar : IsScalar code) (rest : Bytes) :
    pieces (encode code ++ rest) = .scalar code :: pieces rest := by
  have bound : code < 0x110000 := by unfold IsScalar at scalar; omega
  unfold encode
  split
  · rename_i one
    have ascii : code.toUInt8 < 0x80 := by
      rw [UInt8.lt_iff_toNat_lt, toNat_toUInt8 (by omega)]
      exact one
    rw [List.singleton_append, pieces.eq_def]
    simp only [if_pos ascii, toNat_toUInt8 (show code < 256 by omega)]
  split
  · rw [List.cons_append, pieces.eq_def]
    simp only [if_neg (not_ascii (n := 0xc0 + code / 64) (by omega) (by omega)),
      List.cons_append, two?_encode (show 0x80 ≤ code by omega) (by omega), List.nil_append]
  split
  · rw [List.cons_append, pieces.eq_def]
    have lead := toNat_toUInt8 (n := 0xe0 + code / 4096) (by omega)
    simp only [if_neg (not_ascii (n := 0xe0 + code / 4096) (by omega) (by omega)),
      List.cons_append, two?_of_long (b := (0xe0 + code / 4096).toUInt8) (by omega),
      three?_encode (show 0x800 ≤ code by omega) (by omega) scalar, List.nil_append]
  · rw [List.cons_append, pieces.eq_def]
    have lead := toNat_toUInt8 (n := 0xf0 + code / 262144) (by omega)
    simp only [if_neg (not_ascii (n := 0xf0 + code / 262144) (by omega) (by omega)),
      List.cons_append, two?_of_long (b := (0xf0 + code / 262144).toUInt8) (by omega),
      three?_of_long (b := (0xf0 + code / 262144).toUInt8) (by omega),
      four?_encode (show 0x10000 ≤ code by omega) bound, List.nil_append]

theorem pieces_flatMap_encode {codes : List Nat} (scalars : ∀ code ∈ codes, IsScalar code) :
    pieces (codes.flatMap encode) = codes.map .scalar := by
  induction codes with
  | nil => rfl
  | cons code rest ih =>
    rw [List.flatMap_cons, pieces_encode_append (scalars code (by simp)), List.map_cons,
      ih fun code member => scalars code (by simp [member])]

end ProcLisp.Utf8
