import ProcLisp.Proofs.Dict
import ProcLisp.Syscall.Standard

/-!
# What is in a table

A syscall that is found was registered under its name, and admits the number of arguments that it was
looked up for. Where all names differ, every syscall that was registered is found.
-/

namespace ProcLisp

theorem SyscallTable.mem_of_lookup {t : SyscallTable} {name : Bytes} {argc : Int} {sc : Syscall}
    (found : t.lookup name argc = .ok sc) : (name, sc) ∈ t ∧ sc.admits argc := by
  unfold lookup at found
  split at found
  · rename_i present
    split at found
    · rename_i admitted
      obtain rfl := Except.ok.inj found
      exact ⟨Dict.mem_of_find? present, admitted⟩
    · cases found
  · cases found

/-- What is registered of a call, whose cost is not negative. -/
theorem SyscallTable.mem_addAll {t : SyscallTable} {calls : List Syscall} {e : Bytes × Syscall}
    (member : e ∈ t.addAll calls) :
    e ∈ t ∨ ∃ sc ∈ calls, e = (sc.name, { sc with cost := max sc.cost 0 }) := by
  induction calls generalizing t with
  | nil => exact .inl member
  | cons first calls ih =>
    rcases ih member with old | ⟨sc, listed, same⟩
    · rcases Dict.mem_insert old with rfl | older
      · exact .inr ⟨first, by simp, rfl⟩
      · exact .inl older
    · exact .inr ⟨sc, by simp [listed], same⟩

/-- A name that is registered no more keeps its syscall. -/
theorem SyscallTable.find?_addAll_of_fresh (t : SyscallTable) {calls : List Syscall} {name : Bytes}
    (fresh : ∀ sc ∈ calls, sc.name ≠ name) : Dict.find? (t.addAll calls) name = Dict.find? t name := by
  induction calls generalizing t with
  | nil => rfl
  | cons first calls ih =>
    show Dict.find? (addAll (t.add first) calls) name = _
    rw [ih _ fun sc listed => fresh sc (by simp [listed]), add, Dict.find?_insert,
      if_neg (fresh first (by simp))]

theorem SyscallTable.find?_addAll (t : SyscallTable) {calls : List Syscall} {sc : Syscall}
    (distinct : (calls.map Syscall.name).Nodup) (listed : sc ∈ calls) :
    Dict.find? (t.addAll calls) sc.name = some { sc with cost := max sc.cost 0 } := by
  induction calls generalizing t with
  | nil => cases listed
  | cons first calls ih =>
    obtain ⟨fresh, others⟩ := List.nodup_cons.mp distinct
    rcases List.mem_cons.mp listed with rfl | later
    · show Dict.find? (addAll (t.add sc) calls) sc.name = _
      rw [find?_addAll_of_fresh, add, Dict.find?_insert, if_pos rfl]
      intro other there same
      exact fresh (List.mem_map.mpr ⟨other, there, same⟩)
    · exact ih _ others later

theorem Syscall.call_of_value {sc : Syscall} {args : List Value} {v : Value}
    (answered : sc.run args = .value v) : sc.call args = ([], .ok v) := by
  rw [call, answered]
  rfl

theorem Syscall.call_of_plain {sc : Syscall} {args : List Value} {text : Bytes}
    (refused : sc.run args = .plain text) :
    sc.call args = ([], .error (.syscallFailed sc.name text)) := by
  rw [call, refused]
  rfl

open Syscall in
theorem SyscallTable.invoke_standard {sink : Sink} {sc : Syscall} {args : List Value}
    (listed : sc ∈ listCalls ++ integerCalls ++ dataCalls sink) (admitted : sc.admits args.length) :
    (standard sink).invoke sc.name args = sc.call args := by
  have distinct : ((listCalls ++ integerCalls ++ dataCalls sink).map Syscall.name).Nodup := by
    cases sink <;> decide
  have found : Dict.find? (standard sink) sc.name = some { sc with cost := max sc.cost 0 } :=
    find?_addAll [] distinct listed
  have looked : (standard sink).lookup sc.name args.length = .ok { sc with cost := max sc.cost 0 } := by
    rw [lookup, found]
    exact if_pos admitted
  rw [invoke, looked]
  rfl

end ProcLisp
