import ProcLisp.Proofs.Reader.Legible
import ProcLisp.Proofs.Value.Built

/-!
# Values that bind no reserved name

A clean value binds no reserved name, neither as a parameter of a lambda nor in what a lambda has
captured, however deep. Being clean is a likeness of a value to itself.
-/

namespace ProcLisp

/-- No reserved name is bound. -/
def Env.Free (env : Env) : Prop := ∀ e ∈ env, isReserved e.1 = false

/-- No lambda in it, or in its code, has a reserved name for a parameter or captures one. -/
inductive Value.Clean : Value → Prop where
  | int (n : Int64) : Clean (.int n)
  | bool (b : Bool) : Clean (.bool b)
  | sym (s : Bytes) : Clean (.sym s)
  | str (s : Bytes) : Clean (.str s)
  | list {items : List Value} (each : ∀ v ∈ items, Clean v) : Clean (.list items)
  | map {entries : Dict Bytes Value} (each : ∀ e ∈ entries, Clean e.2) : Clean (.map entries)
  | lambda {tag : Tag} {params : List Bytes} {body : Value} {env : Env}
      (free : ∀ s ∈ params, isReserved s = false) (code : Clean body)
      (ordered : Dict.Ordered env) (names : Env.Free env) (each : ∀ e ∈ env, Clean e.2) :
      Clean (.lambda tag params body env)
  | pid (p : Pid) : Clean (.pid p)
  | error {kind : Bytes} {payload : Value} (inner : Clean payload) : Clean (.error kind payload)
  | bare (kind : Bytes) : Clean (.bare kind)

/-- No reserved name is bound, and what is bound is clean. -/
structure Env.Clean (env : Env) : Prop where
  ordered : Dict.Ordered env
  names : env.Free
  each : ∀ e ∈ env, e.2.Clean

/-- What the failure tells is clean. -/
def Failure.Clean (f : Failure) : Prop := f.payload.Clean

/-- A result of which `P` is known, or a clean failure. -/
def Cleanly {α : Type} (P : α → Prop) : Except Failure α → Prop
  | .ok a => P a
  | .error f => f.Clean

theorem Cleanly.map {α β : Type} {P : α → Prop} {Q : β → Prop} {x : Except Failure α} {f : α → β}
    (result : Cleanly P x) (step : ∀ {a}, P a → Q (f a)) : Cleanly Q (x.map f) := by
  cases x with
  | ok a => exact step result
  | error e => exact result

namespace Env.Free

variable {e upper : Env} {s : Bytes}

theorem bind (free : e.Free) (name : isReserved s = false) (v : Value) : (e.bind s v).Free := by
  intro x member
  rcases Dict.mem_insert member with rfl | old
  · exact name
  · exact free x old

theorem merge (free : e.Free) (above : upper.Free) : (e.merge upper).Free :=
  fun x member => (Env.mem_merge member).elim (free x) (above x)

end Env.Free

namespace Likeness

/-- Two runs that differ in nothing and bind no reserved name. -/
def unreserved : Likeness where
  word _ := True
  binds s := isReserved s = false
  bare _ := True
  captured e e' := e.Free ∧ e'.Free
  current e e' := e.Free ∧ e'.Free
  binds_of_word _ free := free
  captured_of_current := id
  current_bind v w name both := ⟨both.1.bind name v, both.2.bind name w⟩
  current_merge _ _ both upper := ⟨both.1.merge upper.1, both.2.merge upper.2⟩

variable {v w : Value} {c : Bool} {e e' : Env} {xs ys : List Value}

theorem alike_of_clean (clean : v.Clean) : unreserved.Alike c v v := by
  induction clean generalizing c with
  | int n => exact .int n
  | bool b => exact .bool b
  | sym s => exact .sym fun _ => trivial
  | str s => exact .str s
  | list _ ih => exact .of_items (List.forall₂_same.mpr fun v member => ih v member)
  | map _ ih => exact .of_entries (List.forall₂_same.mpr fun e member => ⟨rfl, ih e member⟩)
  | lambda free _ ordered names _ code each =>
    have captured : unreserved.Captured _ _ :=
      ⟨envAlike_self ordered fun e member => each e member, names, names⟩
    exact captured.closure free code _
  | pid p => exact .pid p
  | error _ ih => exact .error _ ih
  | bare k => exact .bare trivial fun _ _ => trivial

/-- Nothing but a value itself is like it, and only if it is clean. -/
theorem clean_of_alike (alike : unreserved.Alike c v w) : v = w ∧ v.Clean := by
  induction alike with
  | int n => exact ⟨rfl, .int n⟩
  | bool b => exact ⟨rfl, .bool b⟩
  | sym => exact ⟨rfl, .sym _⟩
  | str s => exact ⟨rfl, .str s⟩
  | list length _ ih =>
    obtain ⟨rfl, all⟩ := same_of_forall₂ (P := Value.Clean) (forall₂_of_zip length ih)
    exact ⟨rfl, .list all⟩
  | block length _ ih =>
    obtain ⟨rfl, all⟩ := same_of_forall₂ (P := Value.Clean) (forall₂_of_zip length ih)
    exact ⟨rfl, .list (List.forall_mem_cons.mpr ⟨.sym _, all⟩)⟩
  | map length keys _ ih =>
    obtain ⟨rfl, all⟩ := same_entries length keys ih
    exact ⟨rfl, .map all⟩
  | lambda free _ ordered ordered' present _ captured code each =>
    obtain ⟨rfl, all⟩ := same_env ordered ordered' fun s =>
      rel_of_present (present s trivial) fun v w => each s v w trivial
    exact ⟨rfl, .lambda free code.2 ordered captured.1 all⟩
  | pid p => exact ⟨rfl, .pid p⟩
  | error _ _ ih =>
    obtain ⟨rfl, inner⟩ := ih
    exact ⟨rfl, .error inner⟩
  | bare => exact ⟨rfl, .bare _⟩

theorem clean_of_code (code : unreserved.Code v) : v.Clean := (clean_of_alike code).2

theorem alike_of_items (clean : ∀ v ∈ xs, v.Clean) :
    List.Forall₂ (unreserved.Alike c) xs xs :=
  List.forall₂_same.mpr fun v member => alike_of_clean (clean v member)

end Likeness

open Likeness

variable {v : Value} {e upper : Env} {s : Bytes}

namespace Value.Clean

theorem empty : Value.Clean .empty := .list nofun

theorem copy (clean : v.Clean) : v.copy.Clean :=
  (clean_of_alike (alike_of_clean (c := false) clean).copy).2

theorem payload (clean : v.Clean) : v.payload.Clean := by
  unfold Value.payload
  split
  · exact empty
  · exact clean

theorem items {items : List Value} (clean : (Value.list items).Clean) : ∀ v ∈ items, v.Clean := by
  cases clean with
  | list each => exact each

theorem of_lambda {tag : Tag} {params : List Bytes} {body : Value}
    (clean : (Value.lambda tag params body e).Clean) :
    (∀ s ∈ params, isReserved s = false) ∧ body.Clean ∧ e.Clean := by
  cases clean with
  | lambda free code ordered names each => exact ⟨free, code, ordered, names, each⟩

end Value.Clean

theorem Failure.clean_raise (kind : Bytes) {v : Value} (clean : v.Clean) : (raise kind v).Clean :=
  clean.payload

namespace Env.Clean

theorem empty : Env.Clean [] := ⟨.nil, nofun, nofun⟩

theorem closure (clean : e.Clean) {params : List Bytes} {body : Value}
    (free : ∀ s ∈ params, isReserved s = false) (code : body.Clean) (tag : Tag) :
    (Value.lambda tag params body e).Clean := .lambda free code clean.ordered clean.names clean.each

theorem lookup (clean : e.Clean) (s : Bytes) : Cleanly Value.Clean (e.lookup s) := by
  unfold Env.lookup
  split
  · rename_i bound
    exact clean.each _ (Dict.mem_of_find? bound)
  · exact .sym s

theorem bind (clean : e.Clean) (name : isReserved s = false) (value : v.Clean) :
    (e.bind s v).Clean := by
  refine ⟨Dict.ordered_insert clean.ordered s v, clean.names.bind name v, fun x member => ?_⟩
  rcases Dict.mem_insert member with rfl | old
  · exact value
  · exact clean.each x old

theorem merge (clean : e.Clean) (above : upper.Clean) : (e.merge upper).Clean where
  ordered := Env.ordered_merge clean.ordered above.ordered
  names := clean.names.merge above.names
  each x member := (Env.mem_merge member).elim (clean.each x) (above.each x)

theorem bindAll {params : List Bytes} {args : List Value} (clean : e.Clean)
    (free : ∀ s ∈ params, isReserved s = false) (values : ∀ v ∈ args, v.Clean) :
    (e.bindAll params args).Clean := by
  induction params generalizing e args with
  | nil => exact clean
  | cons p params ih =>
    cases args with
    | nil => exact clean
    | cons v args =>
      exact ih (clean.bind (free p (by simp)) (values v (by simp)))
        (fun s member => free s (by simp [member])) fun v member => values v (by simp [member])

end Env.Clean
end ProcLisp
