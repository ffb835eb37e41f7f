import ProcLisp.Proofs.Text.Utf8
import ProcLisp.Reader.Scan
import ProcLisp.Text.Quoted

/-!
# Strings as they are read back

The quoted form of a string has more escapes than the reader knows: for those it does not know it
drops the backslash and keeps the rest. `respell` is the string that comes back. It is the same one
exactly for plain strings, and it is always plain itself.
-/

namespace ProcLisp

/-- Printable characters, line feeds, carriage returns and tabs. -/
def isPlainCode (code : Nat) : Bool :=
  isPrintable code || code == 0x0a || code == 0x0d || code == 0x09

def Utf8.Piece.isPlain : Utf8.Piece → Bool
  | .scalar code => isPlainCode code
  | .stray _ => false

namespace Quoted

/-- Valid UTF-8 that consists of plain characters. -/
def isPlain (s : Bytes) : Bool :=
  Utf8.isValid s && (Utf8.pieces s).all fun p => isPlainCode p.code

/-- What the reader makes of an escaped piece. -/
def spelled (p : Utf8.Piece) : Bytes := if p.isPlain then p.bytes else (escape p).tail

/-- What the reader makes of a quoted string. -/
def respell (s : Bytes) : Bytes := (Utf8.pieces s).flatMap spelled

theorem isPlain_iff {s : Bytes} : isPlain s ↔ ∀ p ∈ Utf8.pieces s, p.isPlain := by
  simp only [isPlain, Utf8.isValid, Bool.and_eq_true, List.all_eq_true]
  constructor
  · rintro ⟨valid, plain⟩ p member
    cases p with
    | scalar code => exact plain _ member
    | stray byte => exact absurd (valid _ member) (by simp)
  · intro plain
    refine ⟨fun p member => ?_, fun p member => ?_⟩
    all_goals
      have := plain p member
      cases p <;> simp_all [Utf8.Piece.isPlain, Utf8.Piece.code]

/-! ### Characters of words -/

/-- ASCII letters and digits, of which escapes without a meaning to the reader consist. -/
def IsWord (b : UInt8) : Prop :=
  0x30 ≤ b.toNat ∧ b.toNat ≤ 0x39 ∨ 0x41 ≤ b.toNat ∧ b.toNat ≤ 0x5a ∨
    0x61 ≤ b.toNat ∧ b.toNat ≤ 0x7a

instance (b : UInt8) : Decidable (IsWord b) :=
  inferInstanceAs (Decidable (_ ∧ _ ∨ _ ∧ _ ∨ _ ∧ _))

theorem isPrintable_ascii {code : Nat} (least : 0x20 ≤ code) (most : code ≤ 0x7e) :
    isPrintable code := by
  refine List.any_eq_true.mpr ⟨(0x20, 0x7e), List.mem_cons_self, ?_⟩
  simp [least, most]

theorem IsWord.plain {b : UInt8} (word : IsWord b) : isPlainCode b.toNat := by
  unfold IsWord at word
  have printable : isPrintable b.toNat := isPrintable_ascii (by omega) (by omega)
  simp [isPlainCode, printable]

theorem IsWord.encode {b : UInt8} (word : IsWord b) : Utf8.encode b.toNat = [b] := by
  unfold IsWord at word
  exact Utf8.encode_ascii (by rw [UInt8.lt_iff_toNat_lt]; exact show b.toNat < 128 by omega)

theorem IsWord.not_special {b : UInt8} (word : IsWord b) : b ≠ quoteMark ∧ b ≠ backslash := by
  constructor <;> rintro rfl <;> revert word <;> decide

theorem isWord_hexDigit {n : Nat} (small : n < 16) : IsWord (Bytes.hexDigit n) := by
  unfold Bytes.hexDigit IsWord
  split
  · rw [Utf8.toNat_toUInt8 (by omega)]
    omega
  · rw [Utf8.toNat_toUInt8 (by omega)]
    omega

theorem isWord_hex {width n : Nat} {b : UInt8} (member : b ∈ Bytes.hex width n) : IsWord b := by
  obtain ⟨i, -, rfl⟩ := List.mem_map.mp member
  exact isWord_hexDigit (Nat.mod_lt _ (by decide))

/-! ### Escapes without a meaning to the reader -/

/-- The escape of a piece is a word after a backslash, which is not shorter than the piece. -/
structure Lost (p : Utf8.Piece) (c : UInt8) (rest : Bytes) : Prop where
  escaped : escape p = backslash :: c :: rest
  kept : Reader.unescape c = c
  words : ∀ b ∈ c :: rest, IsWord b
  longer : p.bytes.length ≤ rest.length + 1
  changed : p.bytes ≠ c :: rest

theorem lost_code {p : Utf8.Piece} {mark : UInt8} {width code : Nat}
    (escaped : escape p = escapeCode mark width code) (kept : Reader.unescape mark = mark)
    (word : IsWord mark) (shorter : p.bytes.length ≤ width) :
    Lost p mark (Bytes.hex width code) where
  escaped := escaped
  kept := kept
  words := by
    intro b member
    rcases List.mem_cons.mp member with rfl | digit
    · exact word
    · exact isWord_hex digit
  longer := by simp [Bytes.hex]; omega
  changed same := by
    have := congrArg List.length same
    simp [Bytes.hex] at this
    omega

theorem length_encode (code : Nat) :
    (Utf8.encode code).length =
      if code < 0x80 then 1 else if code < 0x800 then 2 else if code < 0x10000 then 3 else 4 := by
  unfold Utf8.encode
  split
  · rfl
  split
  · rfl
  split <;> rfl

theorem lost_of_not_plain {p : Utf8.Piece} (plain : p.isPlain = false) : ∃ c rest, Lost p c rest := by
  cases p with
  | stray byte => exact ⟨_, _, lost_code rfl (by decide) (by decide) (by simp [Utf8.Piece.bytes])⟩
  | scalar code =>
    have size := length_encode code
    simp only [Utf8.Piece.isPlain, isPlainCode, Bool.or_eq_false_iff, beq_eq_false_iff_ne] at plain
    obtain ⟨⟨⟨dark, notFeed⟩, notReturn⟩, notTab⟩ := plain
    have notQuote : ¬ (code = 0x22 || code = 0x5c) = true := by
      rw [Bool.or_eq_true, decide_eq_true_eq, decide_eq_true_eq]
      rintro (rfl | rfl) <;> exact absurd dark (by decide)
    have escaped : escape (.scalar code) = _ := (if_neg notQuote).trans (if_neg (by simp [dark]))
    cases letter : letter? code with
    | some c =>
      rw [letter] at escaped
      refine ⟨c, [], ?_⟩
      have known : code = 0x07 ∨ code = 0x08 ∨ code = 0x0c ∨ code = 0x0b := by
        unfold letter? at letter
        split at letter <;> simp_all
      rcases known with rfl | rfl | rfl | rfl <;>
      · obtain rfl := Option.some.inj letter
        exact ⟨escaped, by decide, List.forall_mem_singleton.mpr (by decide), by decide, by decide⟩
    | none =>
      rw [letter] at escaped
      simp only at escaped
      split at escaped
      · rename_i control
        simp only [Bool.or_eq_true, decide_eq_true_eq] at control
        refine ⟨_, _, lost_code escaped (by decide) (by decide) ?_⟩
        rw [Utf8.Piece.bytes, size, if_pos (by omega)]
        decide
      split at escaped
      · refine ⟨_, _, lost_code escaped (by decide) (by decide) ?_⟩
        rw [Utf8.Piece.bytes, size]
        repeat' split
        all_goals omega
      · refine ⟨_, _, lost_code escaped (by decide) (by decide) ?_⟩
        rw [Utf8.Piece.bytes, size]
        repeat' split
        all_goals omega

/-! ### Plain pieces -/

theorem mem_encode {code : Nat} {b : UInt8} (scalar : Utf8.IsScalar code)
    (member : b ∈ Utf8.encode code) : code < 0x80 ∧ b.toNat = code ∨ 0x80 ≤ b.toNat := by
  have bound : code < 0x110000 := by unfold Utf8.IsScalar at scalar; omega
  unfold Utf8.encode at member
  split at member
  · rename_i ascii
    obtain rfl := List.mem_singleton.mp member
    exact .inl ⟨ascii, Utf8.toNat_toUInt8 (by omega)⟩
  right
  split at member
  · simp only [List.mem_cons, List.not_mem_nil, or_false] at member
    rcases member with rfl | rfl <;>
    · rw [Utf8.toNat_toUInt8 (by omega)]
      omega
  split at member
  · simp only [List.mem_cons, List.not_mem_nil, or_false] at member
    rcases member with rfl | rfl | rfl <;>
    · rw [Utf8.toNat_toUInt8 (by omega)]
      omega
  · simp only [List.mem_cons, List.not_mem_nil, or_false] at member
    rcases member with rfl | rfl | rfl | rfl <;>
    · rw [Utf8.toNat_toUInt8 (by omega)]
      omega

/-- The two shapes of an escaped piece: its bytes as they are, or a backslash before them. -/
inductive Unescapes (p : Utf8.Piece) : Prop where
  | bare (escaped : escape p = spelled p)
      (clean : ∀ b ∈ spelled p, b ≠ quoteMark ∧ b ≠ backslash)
  | marked (c : UInt8) (rest : Bytes) (escaped : escape p = backslash :: c :: rest)
      (read : spelled p = Reader.unescape c :: rest)
      (clean : ∀ b ∈ rest, b ≠ quoteMark ∧ b ≠ backslash)

theorem escape_unescapes {p : Utf8.Piece} (formed : p.Formed) : Unescapes p := by
  cases plain : p.isPlain with
  | false =>
    obtain ⟨c, rest, lost⟩ := lost_of_not_plain plain
    refine .marked c rest lost.escaped ?_ fun b member => (lost.words b (.tail c member)).not_special
    rw [spelled, plain, if_neg (by simp), lost.escaped, List.tail_cons, lost.kept]
  | true =>
    have kept : spelled p = p.bytes := by rw [spelled, if_pos plain]
    cases p with
    | stray byte => simp [Utf8.Piece.isPlain] at plain
    | scalar code =>
      by_cases quote : code = 0x22 ∨ code = 0x5c
      · rcases quote with rfl | rfl <;> exact .marked _ [] rfl (kept.trans rfl) (by simp)
      by_cases printable : isPrintable code
      · have escaped : escape (.scalar code) = Utf8.encode code := by
          rw [escape, if_neg (by simpa using quote), if_pos printable]
        refine .bare (escaped.trans kept.symm) fun b member => ?_
        rw [kept] at member
        constructor <;>
        · rintro rfl
          have := mem_encode formed member
          simp only [quoteMark, backslash, UInt8.reduceToNat] at this
          omega
      · have letter : code = 0x0a ∨ code = 0x0d ∨ code = 0x09 := by
          simpa [Utf8.Piece.isPlain, isPlainCode, printable, or_assoc] using plain
        rcases letter with rfl | rfl | rfl
        · exact .marked 0x6e [] (by decide +kernel) (kept.trans (by decide)) (by simp)
        · exact .marked 0x72 [] (by decide +kernel) (kept.trans (by decide)) (by simp)
        · exact .marked 0x74 [] (by decide +kernel) (kept.trans (by decide)) (by simp)

/-! ### Strings -/

theorem flatMap_encode_words {s : Bytes} (words : ∀ b ∈ s, IsWord b) :
    (s.map UInt8.toNat).flatMap Utf8.encode = s := by
  induction s with
  | nil => rfl
  | cons b s ih =>
    rw [List.map_cons, List.flatMap_cons, (words b (by simp)).encode,
      ih fun b member => words b (by simp [member])]
    rfl

theorem spelled_codes {p : Utf8.Piece} (formed : p.Formed) :
    ∃ codes : List Nat, spelled p = codes.flatMap Utf8.encode ∧
      ∀ code ∈ codes, isPlainCode code ∧ Utf8.IsScalar code := by
  cases plain : p.isPlain with
  | false =>
    obtain ⟨c, rest, lost⟩ := lost_of_not_plain plain
    refine ⟨(c :: rest).map UInt8.toNat, ?_, fun code member => ?_⟩
    · rw [spelled, plain, if_neg (by simp), lost.escaped, List.tail_cons,
        flatMap_encode_words lost.words]
    · obtain ⟨b, among, rfl⟩ := List.mem_map.mp member
      have := b.toNat_lt
      exact ⟨(lost.words b among).plain, by unfold Utf8.IsScalar; omega⟩
  | true =>
    cases p with
    | stray byte => simp [Utf8.Piece.isPlain] at plain
    | scalar code =>
      refine ⟨[code], by simp [spelled, plain, Utf8.Piece.bytes], fun c member => ?_⟩
      obtain rfl := List.mem_singleton.mp member
      exact ⟨plain, formed⟩

theorem flatMap_spelled_codes {ps : List Utf8.Piece} (formed : ∀ p ∈ ps, p.Formed) :
    ∃ codes : List Nat, ps.flatMap spelled = codes.flatMap Utf8.encode ∧
      ∀ code ∈ codes, isPlainCode code ∧ Utf8.IsScalar code := by
  induction ps with
  | nil => exact ⟨[], rfl, by simp⟩
  | cons p ps ih =>
    obtain ⟨first, same, plain⟩ := spelled_codes (formed p (by simp))
    obtain ⟨later, sames, plains⟩ := ih fun p member => formed p (by simp [member])
    refine ⟨first ++ later, by simp [same, sames], fun code member => ?_⟩
    exact (List.mem_append.mp member).elim (plain code) (plains code)

/-- What comes back is plain, whatever the string was. -/
theorem isPlain_respell (s : Bytes) : isPlain (respell s) := by
  obtain ⟨codes, same, plain⟩ := flatMap_spelled_codes (Utf8.pieces_formed s)
  rw [isPlain_iff, respell, same, Utf8.pieces_flatMap_encode fun code member => (plain code member).2]
  intro p member
  obtain ⟨code, among, rfl⟩ := List.mem_map.mp member
  exact (plain code among).1

theorem length_bytes_le (p : Utf8.Piece) : p.bytes.length ≤ (spelled p).length := by
  unfold spelled
  split
  · exact Nat.le_refl _
  · rename_i plain
    obtain ⟨c, rest, lost⟩ := lost_of_not_plain (by simpa using plain)
    simpa [lost.escaped] using lost.longer

theorem spelled_eq_bytes {p : Utf8.Piece} : spelled p = p.bytes ↔ p.isPlain := by
  unfold spelled
  split
  · simp [*]
  · rename_i plain
    obtain ⟨c, rest, lost⟩ := lost_of_not_plain (by simpa using plain)
    simpa [lost.escaped, plain] using Ne.symm lost.changed

theorem length_flatMap_bytes_le (ps : List Utf8.Piece) :
    (ps.flatMap Utf8.Piece.bytes).length ≤ (ps.flatMap spelled).length := by
  induction ps with
  | nil => simp
  | cons p ps ih =>
    have := length_bytes_le p
    simp only [List.flatMap_cons, List.length_append]
    omega

/-- No piece gets shorter, so that in a string of the same length all pieces are in their places. -/
theorem flatMap_spelled_eq_iff {ps : List Utf8.Piece} :
    ps.flatMap spelled = ps.flatMap Utf8.Piece.bytes ↔ ∀ p ∈ ps, p.isPlain := by
  induction ps with
  | nil => simp
  | cons p ps ih =>
    simp only [List.flatMap_cons, List.forall_mem_cons]
    constructor
    · intro same
      have first := length_bytes_le p
      have later := length_flatMap_bytes_le ps
      have lengths := congrArg List.length same
      simp only [List.length_append] at lengths
      obtain ⟨here, there⟩ := List.append_inj same (by omega)
      exact ⟨spelled_eq_bytes.mp here, ih.mp there⟩
    · rintro ⟨plain, plains⟩
      rw [spelled_eq_bytes.mpr plain, ih.mpr plains]

/-- Plain strings come back as they were, and no others. -/
theorem respell_eq_iff {s : Bytes} : respell s = s ↔ isPlain s := by
  have whole : respell s = (Utf8.pieces s).flatMap Utf8.Piece.bytes ↔
      ∀ p ∈ Utf8.pieces s, p.isPlain := flatMap_spelled_eq_iff
  rw [Utf8.pieces_bytes, ← isPlain_iff] at whole
  exact whole

end Quoted
end ProcLisp
