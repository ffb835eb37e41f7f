import ProcLisp.Journal.Record
import ProcLisp.Proofs.Reader.Unreadable

/-!
# Records read back from the archive

An archived record always comes back, with its pid and its time. The reason comes back as it was
exactly if it is legible and its strings are plain, and as its printed form exactly if that form is
unreadable. Everything else comes back as a different value: a list that holds an unreadable value,
a map without entries, a string with a character that is not plain.
-/

namespace ProcLisp

namespace Quoted

theorem length_spelled_le {p : Utf8.Piece} (formed : p.Formed) :
    (spelled p).length ≤ (escape p).length := by
  cases escape_unescapes formed with
  | bare escaped => exact Nat.le_of_eq (congrArg List.length escaped.symm)
  | marked c rest escaped read => simp [escaped, read]

theorem length_flatMap_spelled_le {ps : List Utf8.Piece} (formed : ∀ p ∈ ps, p.Formed) :
    (ps.flatMap spelled).length ≤ (ps.flatMap escape).length := by
  induction ps with
  | nil => simp
  | cons p ps ih =>
    have first := length_spelled_le (formed p (by simp))
    have later := ih fun p member => formed p (by simp [member])
    simp only [List.flatMap_cons, List.length_append]
    omega

theorem respell_ne_quote (s : Bytes) : respell s ≠ quote s := by
  intro same
  have shorter := length_flatMap_spelled_le (Utf8.pieces_formed s)
  have lengths := congrArg List.length same
  simp only [respell, quote, List.length_cons, List.length_append] at lengths
  omega

end Quoted

namespace Journal

theorem length_bigEndian (n : UInt64) : (bigEndian n).length = 8 := by
  simp [bigEndian]

theorem ofBigEndian_bigEndian (n : UInt64) : ofBigEndian (bigEndian n) = n := by
  have bound := n.toNat_lt
  apply UInt64.toNat_inj.mp
  simp [ofBigEndian, bigEndian, List.range_succ]
  omega

namespace Record

/-- Archiving takes nothing from the pid and the time. -/
theorem decode_encode (r : Record) :
    decode r.pid r.encode = .ok ⟨r.pid, decodeReason r.reason.encode, r.exitedAt⟩ := by
  have head := length_bigEndian r.exitedAt.toUInt64
  have long : ¬ r.encode.length < 8 := by
    rw [encode, List.length_append, head]
    omega
  rw [decode, if_neg long, encode, ← head, List.take_left, List.drop_left, ofBigEndian_bigEndian]
  rfl

theorem decodeReason_equal_iff {v : Value} (formed : v.WellFormed) :
    (decodeReason v.encode).equal v ↔ v.Legible ∧ ∀ s ∈ v.strings, Quoted.isPlain s := by
  constructor
  · intro same
    cases parsed : Reader.parseOne v.encode with
    | ok w =>
      rw [decodeReason, parsed] at same
      have read := Reader.legible_of_parseOne parsed
      obtain rfl := Value.eq_of_equal read formed same
      rw [Reader.parseOne_encode read] at parsed
      exact ⟨read, w.reread_eq_self.mp (Except.ok.inj parsed)⟩
    | error e =>
      rw [decodeReason, parsed] at same
      have text : .str v.encode = v := Value.eq_of_equal (.str _) formed same
      have legible : v.Legible := text ▸ .str _
      rw [Reader.parseOne_encode legible] at parsed
      cases parsed
  · rintro ⟨legible, plain⟩
    rw [decodeReason, Reader.parseOne_encode legible, v.reread_eq_self.mpr plain]
    exact formed.proper.equal_self

theorem decodeReason_eq_text_iff {v : Value} (formed : v.WellFormed) :
    decodeReason v.encode = .str v.encode ↔ v.isUnreadable := by
  constructor
  · intro same
    have scalar : ∀ {w : Value}, w.Legible → decodeReason w.encode = w.reread := by
      intro w legible
      rw [decodeReason, Reader.parseOne_encode legible]
    cases formed with
    | int n => exact nomatch (scalar (.int n)).symm.trans same
    | bool b => exact nomatch (scalar (.bool b)).symm.trans same
    | sym name => exact nomatch (scalar (.sym name)).symm.trans same
    | str s =>
      have respelled := (scalar (.str s)).symm.trans same
      have text : Value.encode (.str s) = Quoted.quote s := List.append_nil _
      rw [text] at respelled
      exact absurd (Value.str.inj respelled) (Quoted.respell_ne_quote s)
    | list each =>
      obtain ⟨vs, parsed⟩ := Reader.parseOne_list each
      rw [decodeReason, parsed] at same
      cases same
    | @map entries ordered names each =>
      cases entries with
      | nil => cases same
      | cons entry entries => rfl
    | _ => rfl
  · intro unreadable
    obtain ⟨e, failed⟩ := Reader.parseOne_unreadable formed unreadable
    rw [decodeReason, failed]

/-- Every record comes back with its pid and its time. Its reason is equal to the one archived
exactly if that is legible and has plain strings only, and is the printed form exactly if that form
is unreadable. -/
theorem reason_kept_iff (p : Pid) (t : Int64) {v : Value} (formed : v.WellFormed) :
    ∃ r, decode p (encode ⟨p, v, t⟩) = .ok ⟨p, r, t⟩ ∧
      (r.equal v ↔ v.Legible ∧ ∀ s ∈ v.strings, Quoted.isPlain s) ∧
      (r = .str v.encode ↔ v.isUnreadable) :=
  ⟨_, decode_encode ⟨p, v, t⟩, decodeReason_equal_iff formed, decodeReason_eq_text_iff formed⟩

theorem reason_kept_iff_list_of_pid :
    let v := Value.list [.pid (.issued 4)]
    v.WellFormed ∧ ∃ r, decode (.issued 1) (encode ⟨.issued 1, v, -1⟩) = .ok ⟨.issued 1, r, -1⟩ ∧
      (r.equal v ↔ v.Legible ∧ ∀ s ∈ v.strings, Quoted.isPlain s) ∧
      (r = .str v.encode ↔ v.isUnreadable) := by
  intro v
  have formed : v.WellFormed := .list fun w member => List.mem_singleton.mp member ▸ .pid _
  exact ⟨formed, reason_kept_iff (.issued 1) (-1) formed⟩

/-- A list that holds a pid comes back as a list of two symbols. -/
theorem list_of_pid_is_changed :
    let v := Value.list [.pid (.issued 4)]
    v.WellFormed ∧ ∃ r, decode (.issued 1) (encode ⟨.issued 1, v, 0⟩) = .ok ⟨.issued 1, r, 0⟩ ∧
      r = .list [.sym (ascii "#<pid"), .sym (ascii "00000000-0000-4000-8000-000000000004>")] ∧
      r.equal v = false ∧ r ≠ .str v.encode := by
  intro v
  have read : Reader.parseOne v.encode =
      .ok (.list [.sym (ascii "#<pid"), .sym (ascii "00000000-0000-4000-8000-000000000004>")]) := rfl
  refine ⟨.list fun w member => List.mem_singleton.mp member ▸ .pid _, _,
    decode_encode ⟨.issued 1, v, 0⟩, ?_⟩
  rw [decodeReason, read]
  exact ⟨rfl, rfl, nofun⟩

end Record
end Journal
end ProcLisp
