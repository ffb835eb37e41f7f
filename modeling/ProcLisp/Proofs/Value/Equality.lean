import Mathlib.Data.List.Forall2
import ProcLisp.Proofs.Value.Proper
import ProcLisp.Value.Printer

/-!
# Equality of values

Values that are put together by their constructors are equal exactly if they are the same tree. The
walk through one of two maps is enough, because maps of the same size that share all keys of one
share all keys.
-/

namespace ProcLisp

/-- What a lambda is made of. -/
structure Closure where
  params : List Bytes
  body : Value
  env : Env

namespace Value

/-- Put together by constructors, with every lambda the one that was made under its tag. -/
inductive Constructed (made : Tag → Closure) : Value → Prop where
  | int (n : Int64) : Constructed made (.int n)
  | bool (b : Bool) : Constructed made (.bool b)
  | sym (s : Bytes) : Constructed made (.sym s)
  | str (s : Bytes) : Constructed made (.str s)
  | list {items : List Value} (each : ∀ v ∈ items, Constructed made v) : Constructed made (.list items)
  | map {entries : Dict Bytes Value} (ordered : Dict.Ordered entries)
      (each : ∀ e ∈ entries, Constructed made e.2) : Constructed made (.map entries)
  | lambda (tag : Tag) :
      Constructed made (.lambda tag (made tag).params (made tag).body (made tag).env)
  | pid (p : Pid) : Constructed made (.pid p)
  | error (kind : Bytes) {payload : Value} (inner : Constructed made payload) :
      Constructed made (.error kind payload)

/-- The same kinds, data, items, bindings and payloads, and the same lambdas at the same places. -/
inductive SameTree : Value → Value → Prop where
  | int (n : Int64) : SameTree (.int n) (.int n)
  | bool (b : Bool) : SameTree (.bool b) (.bool b)
  | sym (s : Bytes) : SameTree (.sym s) (.sym s)
  | str (s : Bytes) : SameTree (.str s) (.str s)
  | list {xs ys : List Value} (length : xs.length = ys.length)
      (each : ∀ p ∈ xs.zip ys, SameTree p.1 p.2) : SameTree (.list xs) (.list ys)
  | map {xs ys : Dict Bytes Value} (keys : ∀ k, k ∈ Dict.keys xs ↔ k ∈ Dict.keys ys)
      (each : ∀ k x y, (k, x) ∈ xs → (k, y) ∈ ys → SameTree x y) : SameTree (.map xs) (.map ys)
  | lambda (tag : Tag) {params params' : List Bytes} {body body' : Value} {env env' : Env} :
      SameTree (.lambda tag params body env) (.lambda tag params' body' env')
  | pid (p : Pid) : SameTree (.pid p) (.pid p)
  | error (kind : Bytes) {p q : Value} (payload : SameTree p q) :
      SameTree (.error kind p) (.error kind q)

variable {made : Tag → Closure} {u v w : Value}

theorem Constructed.proper (formed : Constructed made v) : Proper v := by
  induction formed with
  | int n => exact .int n
  | bool b => exact .bool b
  | sym s => exact .sym s
  | str s => exact .str s
  | list _ ih => exact .list ih
  | map ordered _ ih => exact .map ordered fun k v member => ih (k, v) member
  | lambda tag => exact .lambda tag _ _ _
  | pid p => exact .pid p
  | error kind inner ih =>
    refine .error ?_ ih
    rintro rfl
    cases inner

/-! ### Equal values are the same -/

theorem find?_of_equalEntries {xs ys : Dict Bytes Value} (equal : equalEntries xs ys) :
    ∀ e ∈ xs, ∃ y, Dict.find? ys e.1 = some y ∧ e.2.equal y := by
  induction xs with
  | nil => exact nofun
  | cons e xs ih =>
    rw [equalEntries] at equal
    split at equal
    · rename_i y found
      rw [Bool.and_eq_true] at equal
      exact List.forall_mem_cons.mpr ⟨⟨y, found, equal.1⟩, ih equal.2⟩
    · cases equal

/-- As many entries, and every one of the first among the second: then no key of the second is left
over. -/
theorem eq_of_equalEntries {xs ys : Dict Bytes Value} (first : Dict.Ordered xs)
    (second : Dict.Ordered ys) (length : xs.length = ys.length)
    (each : ∀ e ∈ xs, ∀ y, (e.1, y) ∈ ys → e.2.equal y → e.2 = y) (equal : equalEntries xs ys) :
    xs = ys := by
  have subset : xs ⊆ ys := by
    intro e member
    obtain ⟨y, found, same⟩ := find?_of_equalEntries equal e member
    have there : (e.1, y) ∈ ys := Dict.mem_of_find? found
    rwa [← each e member y there same] at there
  have distinct : xs.Nodup := (Dict.distinct_of_ordered first).of_map
  have perm : xs.Perm ys := (List.subperm_of_subset distinct subset).perm_of_length_le length.ge
  refine Dict.eq_of_find?_eq first second fun k => ?_
  exact Dict.find?_of_perm (Dict.distinct_of_ordered second) perm k

theorem Constructed.eq_of_equal (first : Constructed made v) (second : Constructed made w)
    (equal : v.equal w) : v = w := by
  induction first generalizing w with
  | list _ ih =>
    cases second with
    | list each =>
      rw [Value.equal] at equal
      rw [eq_of_equalItems (fun x first y second => ih x first (each y second)) equal]
    | _ => cases equal
  | map ordered _ ih =>
    cases second with
    | map ordered' each =>
      rw [Value.equal, Bool.and_eq_true, beq_iff_eq] at equal
      rw [eq_of_equalEntries ordered ordered' equal.1
        (fun e member y second => ih e member (each _ second)) equal.2]
    | _ => cases equal
  | lambda tag =>
    cases second with
    | lambda tag' =>
      rw [Value.equal, beq_iff_eq] at equal
      rw [equal]
    | _ => cases equal
  | error kind _ ih =>
    cases second with
    | error kind' inner =>
      rw [Value.equal, Bool.and_eq_true, beq_iff_eq] at equal
      rw [equal.1, ih inner equal.2]
    | _ => cases equal
  | _ => cases second <;> simp_all [Value.equal]

theorem Constructed.equal_iff (first : Constructed made v) (second : Constructed made w) :
    v.equal w ↔ v = w := by
  refine ⟨first.eq_of_equal second, ?_⟩
  rintro rfl
  exact first.proper.equal_self

theorem equal_maps_iff {xs ys : Dict Bytes Value} (first : Constructed made (.map xs))
    (second : Constructed made (.map ys)) :
    (Value.map xs).equal (.map ys) ↔ (∀ k, k ∈ Dict.keys xs ↔ k ∈ Dict.keys ys) ∧
      ∀ k x y, (k, x) ∈ xs → (k, y) ∈ ys → x.equal y := by
  cases first with
  | map ordered each =>
    cases second with
    | map ordered' each' =>
      constructor
      · intro equal
        obtain rfl : xs = ys :=
          Value.map.inj (Constructed.eq_of_equal (.map ordered each) (.map ordered' each') equal)
        refine ⟨fun k => .rfl, fun k x y here there => ?_⟩
        obtain rfl : x = y := Dict.eq_of_same_key ordered here there
        exact (each _ here).proper.equal_self
      · rintro ⟨keys, values⟩
        obtain rfl : xs = ys := Dict.eq_of_keys ordered ordered' keys fun k x y here there =>
          (each _ here).eq_of_equal (each' _ there) (values k x y here there)
        exact (Constructed.map ordered each).proper.equal_self

/-! ### Trees -/

theorem Constructed.sameTree_self (formed : Constructed made v) : SameTree v v := by
  induction formed with
  | int n => exact .int n
  | bool b => exact .bool b
  | sym s => exact .sym s
  | str s => exact .str s
  | list _ ih =>
    refine .list rfl fun p member => ?_
    rw [List.zip_eq_zipWith, List.zipWith_self, List.mem_map] at member
    obtain ⟨x, there, rfl⟩ := member
    exact ih x there
  | map ordered _ ih =>
    refine .map (fun k => .rfl) fun k x y here there => ?_
    obtain rfl : x = y := Dict.eq_of_same_key ordered here there
    exact ih _ here
  | lambda tag => exact .lambda tag
  | pid p => exact .pid p
  | error kind _ ih => exact .error kind ih

theorem SameTree.eq (same : SameTree v w) (first : Constructed made v)
    (second : Constructed made w) : v = w := by
  induction same with
  | list length _ ih =>
    cases first with
    | list each =>
      cases second with
      | list each' =>
        have itemwise := List.forall₂_iff_zip.mpr ⟨length, fun {x y} member =>
          ih (x, y) member (each x (List.of_mem_zip member).1) (each' y (List.of_mem_zip member).2)⟩
        rw [List.forall₂_eq_eq_eq] at itemwise
        rw [itemwise]
  | map keys _ ih =>
    cases first with
    | map ordered each =>
      cases second with
      | map ordered' each' =>
        rw [Dict.eq_of_keys ordered ordered' keys fun k x y here there =>
          ih k x y here there (each _ here) (each' _ there)]
  | lambda tag =>
    cases first
    cases second
    rfl
  | error kind _ ih =>
    cases first with
    | error _ inner =>
      cases second with
      | error _ inner' => rw [ih inner inner']
  | _ => rfl

/-- Equality of constructed values is an equivalence and holds exactly of the same trees. Equal values
cannot be told apart by what they print or decide, and a copy is equal to what it was made from. -/
theorem equal_decides_sameTree (first : Constructed made u) (second : Constructed made v)
    (third : Constructed made w) :
    u.equal u ∧ (u.equal v → v.equal u) ∧ (u.equal v → v.equal w → u.equal w) ∧
      (u.equal v ↔ SameTree u v) ∧
      (∀ xs ys, u = .map xs → v = .map ys →
        (u.equal v ↔ (∀ k, k ∈ Dict.keys xs ↔ k ∈ Dict.keys ys) ∧
          ∀ k x y, (k, x) ∈ xs → (k, y) ∈ ys → x.equal y)) ∧
      (u.equal v → u.encode = v.encode ∧ u.truthy = v.truthy) ∧ u.copy.equal u := by
  rw [first.equal_iff second, second.equal_iff first, second.equal_iff third, first.equal_iff third]
  refine ⟨first.proper.equal_self, Eq.symm, Eq.trans, ⟨?_, fun same => same.eq first second⟩, ?_, ?_,
    first.proper.equal_copy⟩
  · rintro rfl
    exact first.sameTree_self
  · rintro xs ys rfl rfl
    rw [← first.equal_iff second]
    exact equal_maps_iff first second
  · rintro rfl
    exact ⟨rfl, rfl⟩

/-- Two maps with a lambda deep in them, written in different orders, and one with another lambda. -/
theorem equal_decides_sameTree_of_maps :
    let made : Tag → Closure := fun tag => ⟨[ascii "x"], .int (.ofNat tag.serial), []⟩
    let f (n : Nat) : Value := .lambda ⟨0, n⟩ [ascii "x"] (.int (.ofNat n)) []
    let failed (n : Nat) : Value := .error (ascii "UserError") (.list [f n, .pid (.issued 1)])
    let u : Value := .map (Dict.insert (Dict.insert [] (ascii "b") (failed 1)) (ascii "a") (.bool true))
    let v : Value := .map [(ascii "a", .bool true), (ascii "b", failed 1)]
    let w : Value := .map [(ascii "a", .bool true), (ascii "b", failed 2)]
    (Constructed made u ∧ Constructed made v ∧ Constructed made w) ∧
      SameTree u v ∧ v.equal u ∧ u.encode = v.encode ∧ u.copy.equal u ∧ ¬ SameTree u w := by
  intro made f failed u v w
  have fails (n : Nat) : Constructed made (failed n) :=
    .error _ (.list (by simpa using ⟨.lambda ⟨0, n⟩, .pid _⟩))
  have before : ascii "a" < ascii "b" := by decide
  have both (n : Nat) : Constructed made (.map [(ascii "a", .bool true), (ascii "b", failed n)]) :=
    .map (List.pairwise_pair.mpr before) (by simpa using ⟨.bool true, fails n⟩)
  have first : Constructed made u := both 1
  obtain ⟨-, symm, -, sameTree, -, told, copied⟩ :=
    equal_decides_sameTree first (both 1) (both 2)
  obtain ⟨-, -, -, other, -⟩ := equal_decides_sameTree first (both 2) (both 2)
  have equal : u.equal v := rfl
  exact ⟨⟨first, both 1, both 2⟩, sameTree.mp equal, symm equal, (told equal).1, copied,
    fun same => absurd (other.mpr same) (by decide)⟩

end Value
end ProcLisp
