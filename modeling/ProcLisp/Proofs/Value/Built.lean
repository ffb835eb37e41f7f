import ProcLisp.Proofs.Value.Likeness

/-!
# Values that are built

A built value has data of its kind, and so has everything that it is made of, down to the
environments of its lambdas. Being built is a likeness of a value to itself that leaves nothing out.
-/

namespace ProcLisp

/-- No value in it is bare. -/
inductive Value.Built : Value → Prop where
  | int (n : Int64) : Built (.int n)
  | bool (b : Bool) : Built (.bool b)
  | sym (s : Bytes) : Built (.sym s)
  | str (s : Bytes) : Built (.str s)
  | list {items : List Value} (each : ∀ v ∈ items, Built v) : Built (.list items)
  | map {entries : Dict Bytes Value} (each : ∀ e ∈ entries, Built e.2) : Built (.map entries)
  | lambda {tag : Tag} {params : List Bytes} {body : Value} {env : Env} (code : Built body)
      (ordered : Dict.Ordered env) (each : ∀ e ∈ env, Built e.2) :
      Built (.lambda tag params body env)
  | pid (p : Pid) : Built (.pid p)
  | error {kind : Bytes} {payload : Value} (inner : Built payload) : Built (.error kind payload)

/-- All that is bound in it is built. -/
structure Env.Built (env : Env) : Prop where
  ordered : Dict.Ordered env
  each : ∀ e ∈ env, e.2.Built

namespace Likeness

/-- Two runs that differ in nothing. -/
def whole : Likeness where
  word _ := True
  binds _ := True
  bare _ := False
  captured _ _ := True
  current _ _ := True
  binds_of_word _ _ := trivial
  captured_of_current _ := trivial
  current_bind _ _ _ _ := trivial
  current_merge _ _ _ _ := trivial

variable {v w : Value} {c : Bool} {e e' : Env} {xs ys : List Value}

theorem alike_of_built (built : v.Built) : whole.Alike c v v := by
  induction built generalizing c with
  | int n => exact .int n
  | bool b => exact .bool b
  | sym s => exact .sym fun _ => trivial
  | str s => exact .str s
  | list _ ih => exact .of_items (List.forall₂_same.mpr fun v member => ih v member)
  | map _ ih => exact .of_entries (List.forall₂_same.mpr fun e member => ⟨rfl, ih e member⟩)
  | lambda _ ordered _ code each =>
    have captured : whole.Captured _ _ :=
      ⟨envAlike_self ordered fun e member => each e member, trivial⟩
    exact captured.closure (fun _ _ => trivial) code _
  | pid p => exact .pid p
  | error _ ih => exact .error _ ih

theorem current_of_built (built : e.Built) : whole.Current e e :=
  ⟨envAlike_self built.ordered fun x member => alike_of_built (built.each x member), trivial⟩

theorem same_of_forall₂ {α : Type} {P : α → Prop} {xs ys : List α}
    (each : List.Forall₂ (fun x y => x = y ∧ P x) xs ys) : xs = ys ∧ ∀ x ∈ xs, P x := by
  induction each with
  | nil => exact ⟨rfl, nofun⟩
  | cons first _ ih =>
    obtain ⟨rfl, holds⟩ := first
    obtain ⟨rfl, all⟩ := ih
    exact ⟨rfl, List.forall_mem_cons.mpr ⟨holds, all⟩⟩

theorem same_entries {P : Value → Prop} {xs ys : Dict Bytes Value} (length : xs.length = ys.length)
    (keys : ∀ p ∈ xs.zip ys, p.1.1 = p.2.1)
    (each : ∀ p ∈ xs.zip ys, p.1.2 = p.2.2 ∧ P p.1.2) : xs = ys ∧ ∀ e ∈ xs, P e.2 :=
  same_of_forall₂ (forall₂_of_zip (R := fun x y => x = y ∧ P x.2) length
    fun p member => ⟨Prod.ext (keys p member) (each p member).1, (each p member).2⟩)

theorem same_env {P : Value → Prop} (ordered : Dict.Ordered e) (ordered' : Dict.Ordered e')
    (found : ∀ s, Option.Rel (fun v w => v = w ∧ P v) (Dict.find? e s) (Dict.find? e' s)) :
    e = e' ∧ ∀ x ∈ e, P x.2 := by
  have same : e = e' := by
    refine Dict.eq_of_find?_eq ordered ordered' fun s => ?_
    have both := found s
    generalize Dict.find? e s = x, Dict.find? e' s = y at both
    cases both with
    | none => rfl
    | some values => exact congrArg some values.1
  subst same
  refine ⟨rfl, fun x member => ?_⟩
  have both := found x.1
  rw [Dict.find?_of_mem ordered member] at both
  cases both with
  | some values => exact values.2

/-- Nothing but a value itself is like it, and only if it is built. -/
theorem same_of_alike (alike : whole.Alike c v w) : v = w ∧ v.Built := by
  induction alike with
  | int n => exact ⟨rfl, .int n⟩
  | bool b => exact ⟨rfl, .bool b⟩
  | sym => exact ⟨rfl, .sym _⟩
  | str s => exact ⟨rfl, .str s⟩
  | list length _ ih =>
    obtain ⟨rfl, all⟩ := same_of_forall₂ (P := Value.Built) (forall₂_of_zip length ih)
    exact ⟨rfl, .list all⟩
  | block length _ ih =>
    obtain ⟨rfl, all⟩ := same_of_forall₂ (P := Value.Built) (forall₂_of_zip length ih)
    exact ⟨rfl, .list (List.forall_mem_cons.mpr ⟨.sym _, all⟩)⟩
  | map length keys _ ih =>
    obtain ⟨rfl, all⟩ := same_entries length keys ih
    exact ⟨rfl, .map all⟩
  | lambda _ _ ordered ordered' present _ _ code each =>
    obtain ⟨rfl, all⟩ := same_env ordered ordered' fun s =>
      rel_of_present (present s trivial) fun v w => each s v w trivial
    exact ⟨rfl, .lambda code.2 ordered all⟩
  | pid p => exact ⟨rfl, .pid p⟩
  | error _ _ ih =>
    obtain ⟨rfl, inner⟩ := ih
    exact ⟨rfl, .error inner⟩
  | bare allowed => cases allowed

theorem built_of_alike (alike : whole.Alike c v v) : v.Built := (same_of_alike alike).2

theorem same_of_envAlike (alike : whole.EnvAlike e e') : e = e' ∧ e.Built := by
  have found : ∀ s, Option.Rel (fun v w => v = w ∧ v.Built) (Dict.find? e s) (Dict.find? e' s) := by
    intro s
    have found := alike.found s trivial
    generalize Dict.find? e s = x, Dict.find? e' s = y at found
    cases found with
    | none => exact .none
    | some related => exact .some (same_of_alike related)
  obtain ⟨same, all⟩ := same_env alike.ordered alike.ordered' found
  exact ⟨same, alike.ordered, all⟩

theorem same_of_items (each : List.Forall₂ (whole.Alike c) xs ys) :
    xs = ys ∧ ∀ v ∈ xs, v.Built := same_of_forall₂ (each.imp fun _ _ => same_of_alike)

end Likeness
end ProcLisp
