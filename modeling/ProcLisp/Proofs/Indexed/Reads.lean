import ProcLisp.Proofs.Value.Built

/-!
# Checked reads

Reading at a position of a list may run into a fault, and so may a test of equality that relies on
data which a value does not have. Bounds that hold and values that are built keep both from it.
-/

namespace ProcLisp.Indexed

/-- What stops an operation for good; no program sees it. -/
inductive Fault where
  /-- A position outside of a list. -/
  | range
  /-- A value without the data of its kind. -/
  | assertion
  deriving DecidableEq, Repr

abbrev Checked := Except Fault

/-- The operation runs into no fault, and `P` holds of what it comes to. -/
def Yields {α : Type} (x : Checked α) (P : α → Prop) : Prop := ∃ a, x = .ok a ∧ P a

section Yields

variable {α β : Type} {P : α → Prop} {Q : β → Prop} {x : Checked α}

theorem yields_ok {a : α} (holds : P a) : Yields (.ok a) P := ⟨a, rfl, holds⟩

theorem ok_bind (a : α) (f : α → Checked β) : (Except.ok a >>= f) = f a := rfl

theorem Yields.bind {f : α → Checked β} (yields : Yields x P) (next : ∀ a, P a → Yields (f a) Q) :
    Yields (x >>= f) Q := by
  obtain ⟨a, rfl, holds⟩ := yields
  exact next a holds

theorem Yields.map {f : α → β} (yields : Yields x P) (next : ∀ a, P a → Q (f a)) :
    Yields (f <$> x) Q := by
  obtain ⟨a, rfl, holds⟩ := yields
  exact yields_ok (next a holds)

end Yields

/-! ### Positions -/

section Reads

variable {α : Type} {xs : List α} {i : Nat}

def read (xs : List α) (i : Nat) : Checked α :=
  match xs[i]? with
  | some x => .ok x
  | none => .error .range

/-- What follows the first `start` items. -/
def slice (xs : List α) (start : Nat) : Checked (List α) :=
  if start ≤ xs.length then .ok (xs.drop start) else .error .range

theorem read_of_lt (inside : i < xs.length) : read xs i = .ok xs[i] := by
  rw [read, List.getElem?_eq_getElem inside]

theorem lt_of_drop {x : α} {rest : List α} (split : xs.drop i = x :: rest) : i < xs.length := by
  by_contra outside
  rw [List.drop_eq_nil_of_le (by omega)] at split
  cases split

theorem read_of_drop {x : α} {rest : List α} (split : xs.drop i = x :: rest) : read xs i = .ok x := by
  have inside := lt_of_drop split
  rw [List.drop_eq_getElem_cons inside] at split
  rw [read_of_lt inside, (List.cons.inj split).1]

theorem drop_succ {x : α} {rest : List α} (split : xs.drop i = x :: rest) :
    xs.drop (i + 1) = rest := by
  rw [← List.drop_drop, split]
  rfl

theorem slice_of_le (inside : i ≤ xs.length) : slice xs i = .ok (xs.drop i) := if_pos inside

end Reads

/-! ### Equality -/

mutual

/-- Structural equality, which takes for granted that lambdas and errors have data. -/
def equal : Value → Value → Checked Bool
  | .list xs, .list ys => if xs.length ≠ ys.length then .ok false else equalItems xs ys 0
  | .map xs, .map ys => if xs.length ≠ ys.length then .ok false else equalEntries xs ys
  | .error k p, .error l q => if k ≠ l then .ok false else equal p q
  | .bare k, w =>
    if w.kind = k ∧ (k = Kind.lambda ∨ k = Kind.error) then .error .assertion
    else .ok ((Value.bare k).equal w)
  | v, .bare k =>
    if v.kind = k ∧ (k = Kind.lambda ∨ k = Kind.error) then .error .assertion
    else .ok (v.equal (.bare k))
  | v, w => .ok (v.equal w)

/-- Compares item by item, from position `i` of the second list on. -/
def equalItems : List Value → List Value → (i : Nat) → Checked Bool
  | [], _, _ => .ok true
  | x :: xs, ys, i => do
    let y ← read ys i
    if ← equal x y then equalItems xs ys (i + 1) else .ok false

def equalEntries : Dict Bytes Value → Dict Bytes Value → Checked Bool
  | [], _ => .ok true
  | (k, x) :: xs, ys => match Dict.find? ys k with
    | some y => do if ← equal x y then equalEntries xs ys else .ok false
    | none => .ok false

end

variable {v w : Value} {xs ys : List Value}

theorem equalItems_of_length_ne (different : xs.length ≠ ys.length) :
    Value.equalItems xs ys = false := by
  induction xs generalizing ys with
  | nil =>
    cases ys with
    | nil => exact absurd rfl different
    | cons => rfl
  | cons x xs ih =>
    cases ys with
    | nil => rfl
    | cons y ys =>
      have shorter : xs.length ≠ ys.length := by simpa using different
      rw [Value.equalItems, ih shorter, Bool.and_false]

theorem equalItems_of_built (each : ∀ x ∈ xs, ∀ y, y.Built → equal x y = .ok (x.equal y))
    (built : ∀ y ∈ ys, y.Built) {i : Nat} (same : ys.length = i + xs.length) :
    equalItems xs ys i = .ok (Value.equalItems xs (ys.drop i)) := by
  induction xs generalizing i with
  | nil =>
    rw [equalItems, List.drop_eq_nil_of_le (by simp [same])]
    rfl
  | cons x xs ih =>
    have inside : i < ys.length := by
      rw [same, List.length_cons]
      omega
    have first := each x (by simp) ys[i] (built _ (List.getElem_mem inside))
    have later := ih (fun y member => each y (by simp [member])) (i := i + 1)
      (by rw [same, List.length_cons]; omega)
    rw [equalItems, read_of_lt inside, List.drop_eq_getElem_cons inside]
    show (do if ← equal x ys[i] then equalItems xs ys (i + 1) else .ok false) = _
    rw [first, later]
    show (if x.equal ys[i] = true then _ else _) = _
    simp only [Value.equalItems]
    split <;> simp_all

theorem equalEntries_of_built {xs ys : Dict Bytes Value}
    (each : ∀ e ∈ xs, ∀ y, y.Built → equal e.2 y = .ok (e.2.equal y))
    (built : ∀ e ∈ ys, e.2.Built) : equalEntries xs ys = .ok (Value.equalEntries xs ys) := by
  induction xs with
  | nil => simp only [equalEntries, Value.equalEntries]
  | cons e xs ih =>
    obtain ⟨k, x⟩ := e
    have later := ih fun y member => each y (by simp [member])
    simp only [equalEntries, Value.equalEntries]
    cases found : Dict.find? ys k with
    | none => rfl
    | some y =>
      have first := each (k, x) (by simp) y (built _ (Dict.mem_of_find? found))
      show (do if ← equal x y then equalEntries xs ys else .ok false) = _
      rw [first, later]
      show (if x.equal y = true then _ else _) = _
      split <;> simp_all

/-- Values that are built are compared without a fault. -/
theorem equal_of_built (first : v.Built) (second : w.Built) : equal v w = .ok (v.equal w) := by
  induction first generalizing w with
  | @list items _ ih =>
    cases second with
    | @list others built =>
      rw [equal, Value.equal]
      split
      · rename_i different
        rw [equalItems_of_length_ne different]
      · exact equalItems_of_built ih built (by omega)
    | _ => simp only [equal, Value.equal]
  | map _ ih =>
    cases second with
    | map built =>
      rw [equal, Value.equal]
      split
      · simp_all
      · rename_i same
        rw [equalEntries_of_built ih built]
        simp_all
    | _ => simp only [equal, Value.equal]
  | error _ ih =>
    cases second with
    | error inner =>
      rw [equal, Value.equal]
      split
      · simp_all
      · rw [ih inner]
        simp_all
    | _ => simp only [equal, Value.equal]
  | _ => cases second <;> simp only [equal, Value.equal]

end ProcLisp.Indexed
