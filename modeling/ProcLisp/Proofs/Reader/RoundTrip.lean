import ProcLisp.Proofs.Reader.Legible
import ProcLisp.Proofs.Reader.Scans
import ProcLisp.Proofs.Text.Digits
import ProcLisp.Value.Printer

/-!
# Reading what was printed

A value that was read is read again from its printed form: the tree is the same, and its strings
are respelled. So it comes back as it was exactly if all its strings are plain, and what came back
once comes back unchanged from then on.
-/

namespace ProcLisp

namespace Value

mutual

/-- The strings in a tree of lists, from left to right. -/
def strings : Value → List Bytes
  | str s => [s]
  | list items => stringsOf items
  | _ => []

def stringsOf : List Value → List Bytes
  | [] => []
  | v :: vs => strings v ++ stringsOf vs

end

mutual

/-- The same tree of lists with other strings. -/
def mapStrings (f : Bytes → Bytes) : Value → Value
  | str s => str (f s)
  | list items => list (mapStringsOf f items)
  | v => v

def mapStringsOf (f : Bytes → Bytes) : List Value → List Value
  | [] => []
  | v :: vs => mapStrings f v :: mapStringsOf f vs

end

/-- The tree with its strings left empty. -/
def outline (v : Value) : Value := v.mapStrings fun _ => []

/-- The tree with its strings as they are read back. -/
def reread (v : Value) : Value := v.mapStrings Quoted.respell

variable {f g : Bytes → Bytes}

mutual

theorem mapStrings_mapStrings (v : Value) :
    (v.mapStrings f).mapStrings g = v.mapStrings fun s => g (f s) := by
  cases v with
  | list items => simp [mapStrings, mapStringsOf_mapStringsOf items]
  | _ => simp [mapStrings]

theorem mapStringsOf_mapStringsOf (vs : List Value) :
    mapStringsOf g (mapStringsOf f vs) = mapStringsOf (fun s => g (f s)) vs := by
  cases vs with
  | nil => simp [mapStringsOf]
  | cons v vs => simp [mapStringsOf, mapStrings_mapStrings v, mapStringsOf_mapStringsOf vs]

end

mutual

theorem strings_mapStrings (v : Value) : (v.mapStrings f).strings = v.strings.map f := by
  cases v with
  | list items => simp [mapStrings, strings, stringsOf_mapStringsOf items]
  | _ => simp [mapStrings, strings]

theorem stringsOf_mapStringsOf (vs : List Value) :
    stringsOf (mapStringsOf f vs) = (stringsOf vs).map f := by
  cases vs with
  | nil => simp [mapStringsOf, stringsOf]
  | cons v vs => simp [mapStringsOf, stringsOf, strings_mapStrings v, stringsOf_mapStringsOf vs]

end

mutual

theorem mapStrings_eq_self (v : Value) : v.mapStrings f = v ↔ ∀ s ∈ v.strings, f s = s := by
  cases v with
  | list items => simp [mapStrings, strings, mapStringsOf_eq_self items]
  | _ => simp [mapStrings, strings]

theorem mapStringsOf_eq_self (vs : List Value) :
    mapStringsOf f vs = vs ↔ ∀ s ∈ stringsOf vs, f s = s := by
  cases vs with
  | nil => simp [mapStringsOf, stringsOf]
  | cons v vs =>
    simp [mapStringsOf, stringsOf, mapStrings_eq_self v, mapStringsOf_eq_self vs, or_imp,
      forall_and]

end

theorem mapStringsOf_eq_map (vs : List Value) : mapStringsOf f vs = vs.map (mapStrings f) := by
  induction vs with
  | nil => rfl
  | cons v vs ih => simp [mapStringsOf, ih]

theorem Legible.mapStrings {v : Value} (legible : Legible v) : Legible (v.mapStrings f) := by
  induction legible with
  | int n => exact .int n
  | bool b => exact .bool b
  | sym name => exact .sym name
  | str s => exact .str (f s)
  | list _ ih =>
    rw [Value.mapStrings, mapStringsOf_eq_map]
    refine .list fun w member => ?_
    obtain ⟨v, among, rfl⟩ := List.mem_map.mp member
    exact ih v among

theorem outline_reread (v : Value) : v.reread.outline = v.outline := mapStrings_mapStrings v

theorem reread_eq_self (v : Value) : v.reread = v ↔ ∀ s ∈ v.strings, Quoted.isPlain s := by
  simp [reread, mapStrings_eq_self, Quoted.respell_eq_iff]

theorem plain_reread (v : Value) : ∀ s ∈ v.reread.strings, Quoted.isPlain s := by
  intro s member
  rw [reread, strings_mapStrings] at member
  obtain ⟨t, -, rfl⟩ := List.mem_map.mp member
  exact Quoted.isPlain_respell t

end Value

namespace Reader

theorem scans_token {s : Bytes} (token : IsToken s) : ∃ r, Scans s r ∧ r.all = [atomValue s] := by
  refine ⟨_, Scans.token token.2, ?_⟩
  cases s with
  | nil => exact absurd rfl token.1
  | cons c s => rfl

/-- Items with blanks between them are read one after the other. -/
theorem scans_items {items : List Value} {values : Value → List Value}
    (each : ∀ v ∈ items, ∃ r, Scans v.encode r ∧ r.all = values v) :
    ∃ r, Scans (Value.writeItems items []) r ∧ r.all = items.flatMap values := by
  match items with
  | [] => exact ⟨_, Scans.nil, rfl⟩
  | [v] =>
    obtain ⟨r, scans, all⟩ := each v (by simp)
    exact ⟨r, scans, by simp [all]⟩
  | v :: w :: more =>
    obtain ⟨r, scans, all⟩ := each v (by simp)
    have others : ∀ x ∈ w :: more, ∃ r, Scans x.encode r ∧ r.all = values x :=
      fun x member => each x (.tail v member)
    obtain ⟨s, later, rest⟩ := scans_items others
    refine ⟨r.next s, ?_, by simp [all, rest]⟩
    rw [Value.writeItems, Value.write_eq_encode_append]
    exact scans.next later

theorem encode_list (items : List Value) :
    Value.encode (.list items) = 0x28 :: (Value.writeItems items [] ++ [0x29]) := by
  rw [Value.encode, Value.write, ← Value.writeItems_append, List.nil_append]

theorem not_delimiter {c : UInt8} (least : 0x2a ≤ c.toNat) (most : c.toNat ≤ 0x7e)
    (other : c.toNat ≠ 0x3b) : isDelimiter c = false := by
  have apart : ∀ d : UInt8, d.toNat < 0x2a ∨ 0x7e < d.toNat ∨ d.toNat = 0x3b → (c == d) = false := by
    intro d outside
    rw [beq_eq_false_iff_ne]
    rintro rfl
    omega
  have control : ¬ c ≤ 0x0d := by
    rw [UInt8.le_iff_toNat_le]
    exact show ¬ c.toNat ≤ 13 by omega
  simp [isDelimiter, isBlank, apart openParen (by decide), apart closeParen (by decide),
    apart Quoted.quoteMark (by decide), apart semicolon (by decide), apart quoteMark (by decide),
    apart 0x20 (by decide), apart 0x85 (by decide), apart 0xa0 (by decide), control]

theorem isToken_ofInt (n : Int) : IsToken (Bytes.ofInt n) := by
  refine ⟨Bytes.ofInt_ne_nil n, fun c member => ?_⟩
  rcases Bytes.mem_ofInt member with digit | rfl
  · rw [Bytes.isDigit_iff] at digit
    exact not_delimiter (by omega) (by omega) (by omega)
  · decide

/-- A legible value is read from its printed form. -/
theorem scans_legible {v : Value} (legible : v.Legible) :
    ∃ r, Scans v.encode r ∧ r.all = [v.reread] := by
  induction legible with
  | int n =>
    have text : Value.encode (.int n) = Bytes.ofInt n.toInt := List.append_nil _
    obtain ⟨r, scans, all⟩ := scans_token (isToken_ofInt n.toInt)
    refine ⟨r, text.symm ▸ scans, ?_⟩
    rw [all, atomValue_ofInt]
    rfl
  | bool b => cases b <;> exact scans_token (by decide)
  | @sym s name =>
    have text : Value.encode (.sym s) = s := List.append_nil s
    obtain ⟨r, scans, all⟩ := scans_token name.token
    refine ⟨r, text.symm ▸ scans, ?_⟩
    rw [all, name.own]
    rfl
  | str s =>
    have text : Value.encode (.str s) = Quoted.quote s := List.append_nil _
    exact ⟨_, text.symm ▸ Scans.quote s, rfl⟩
  | list each ih =>
    obtain ⟨r, scans, all⟩ := scans_items ih
    refine ⟨_, encode_list _ ▸ scans.list, ?_⟩
    rw [Value.reread, Value.mapStrings, Value.mapStringsOf_eq_map, List.map_eq_flatMap]
    exact congrArg (fun items => [Value.list items]) all

theorem parseOne_encode {v : Value} (legible : v.Legible) : parseOne v.encode = .ok v.reread := by
  obtain ⟨r, scans, all⟩ := scans_legible legible
  rw [parseOne_eq_ok, parse_of_scans scans, all]

/-- A value that was read comes back with the same shape from its printed form. It is equal to what
it was if and only if all its strings are plain, and it comes back unchanged from then on. -/
theorem parseOne_encode_parseOne {src : Bytes} {v : Value} (read : parseOne src = .ok v) :
    ∃ w, parseOne v.encode = .ok w ∧ w.outline = v.outline ∧
      (w.equal v ↔ ∀ s ∈ v.strings, Quoted.isPlain s) ∧
      ∃ again, parseOne w.encode = .ok again ∧ again.equal w := by
  have legible := legible_of_parseOne read
  have rereads : v.reread.Legible := legible.mapStrings
  refine ⟨v.reread, parseOne_encode legible, v.outline_reread, ?_, v.reread.reread,
    parseOne_encode rereads, ?_⟩
  · rw [Value.equal_iff_eq rereads legible.wellFormed, Value.reread_eq_self]
  · rw [v.reread.reread_eq_self.mpr v.plain_reread]
    exact rereads.wellFormed.proper.equal_self

/-- A bell is not plain: it comes back as the letter of its escape. -/
theorem parseOne_encode_parseOne_bell :
    let src := ascii "('a \"\x07\" +5)"
    let v := Value.list [quoted (.sym (ascii "a")), .str [0x07], .int 5]
    parseOne src = .ok v ∧
      ∃ w, parseOne v.encode = .ok w ∧ w.outline = v.outline ∧
        (w.equal v ↔ ∀ s ∈ v.strings, Quoted.isPlain s) ∧
        ∃ again, parseOne w.encode = .ok again ∧ again.equal w := by
  intro src v
  have read : parseOne src = .ok v := rfl
  exact ⟨read, parseOne_encode_parseOne read⟩

end Reader
end ProcLisp
