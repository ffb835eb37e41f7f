import ProcLisp.Proofs.Dict
import ProcLisp.Value.Basic

/-!
# Values that are equal to themselves

The keys of a map are told apart by their order, and an error always has a payload. Values that are
built so are equal to themselves and to their copies.
-/

namespace ProcLisp

namespace Value

/-- Maps are ordered by their keys, and no error lacks its payload. -/
inductive Proper : Value → Prop where
  | int (n : Int64) : Proper (.int n)
  | bool (b : Bool) : Proper (.bool b)
  | sym (s : Bytes) : Proper (.sym s)
  | str (s : Bytes) : Proper (.str s)
  | list {items : List Value} (each : ∀ v ∈ items, Proper v) : Proper (.list items)
  | map {entries : Dict Bytes Value} (ordered : Dict.Ordered entries)
      (each : ∀ k v, (k, v) ∈ entries → Proper v) : Proper (.map entries)
  | lambda (tag : Tag) (params : List Bytes) (body : Value) (env : Env) :
      Proper (.lambda tag params body env)
  | pid (p : Pid) : Proper (.pid p)
  | error {kind : Bytes} {payload : Value} (some : payload ≠ .nothing) (inner : Proper payload) :
      Proper (.error kind payload)
  | bare (kind : Bytes) : Proper (.bare kind)

theorem equalItems_self {vs : List Value} (each : ∀ v ∈ vs, v.equal v) : equalItems vs vs := by
  induction vs with
  | nil => rfl
  | cons v vs ih =>
    simp only [equalItems, Bool.and_eq_true]
    exact ⟨each v (by simp), ih fun v member => each v (by simp [member])⟩

theorem eq_of_equalItems {vs ws : List Value} (each : ∀ v ∈ vs, ∀ w ∈ ws, v.equal w → v = w)
    (same : equalItems vs ws) : vs = ws := by
  induction vs generalizing ws with
  | nil =>
    cases ws with
    | nil => rfl
    | cons w ws => cases same
  | cons v vs ih =>
    cases ws with
    | nil => cases same
    | cons w ws =>
      simp only [equalItems, Bool.and_eq_true] at same
      rw [each v (by simp) w (by simp) same.1, ih (fun v first w second =>
        each v (by simp [first]) w (by simp [second])) same.2]

theorem equalEntries_of_find {xs ys : Dict Bytes Value}
    (found : ∀ k v, (k, v) ∈ xs → Dict.find? ys k = some v)
    (each : ∀ k v, (k, v) ∈ xs → v.equal v) : equalEntries xs ys := by
  induction xs with
  | nil => rfl
  | cons entry xs ih =>
    obtain ⟨k, v⟩ := entry
    simp only [equalEntries, found k v (by simp), Bool.and_eq_true]
    exact ⟨each k v (by simp), ih (fun k v member => found k v (by simp [member]))
      fun k v member => each k v (by simp [member])⟩

theorem Proper.equal_self {v : Value} (proper : Proper v) : v.equal v := by
  induction proper with
  | list _ ih => simpa [equal] using equalItems_self ih
  | map ordered _ ih =>
    simpa [equal] using equalEntries_of_find (fun k v => Dict.find?_of_mem ordered) ih
  | error _ _ ih => simpa [equal] using ih
  | _ => simp [equal]

theorem eq_int_of_equal {v : Value} {n : Int64} (same : v.equal (.int n)) : v = .int n := by
  cases v with
  | int m => simpa [equal] using same
  | _ => simp [equal] at same

theorem equalItems_copyItems {vs : List Value} (each : ∀ v ∈ vs, v.copy.equal v) :
    equalItems (copyItems vs) vs := by
  induction vs with
  | nil => rfl
  | cons v vs ih =>
    simp only [copyItems, equalItems, Bool.and_eq_true]
    exact ⟨each v (by simp), ih fun v member => each v (by simp [member])⟩

theorem payload_copy {v : Value} (some : v ≠ .nothing) : v.copy.payload = v.copy := by
  cases v with
  | bare k =>
    rw [copy]
    split
    · rfl
    · cases k with
      | nil => exact absurd rfl some
      | cons c k => rfl
  | _ => simp [copy, payload]

theorem Proper.equal_copy {v : Value} (proper : Proper v) : v.copy.equal v := by
  induction proper with
  | list _ ih => simpa [copy, equal] using equalItems_copyItems ih
  | map ordered each _ =>
    rw [copy]
    · exact (Proper.map ordered each).equal_self
    all_goals simp
  | error some _ ih => simpa [copy, equal, payload_copy some] using ih
  | bare kind =>
    rw [copy]
    split
    · simp [empty, equal, *]
    · simp [equal]
  | _ => simp [copy, equal]

end Value
end ProcLisp
