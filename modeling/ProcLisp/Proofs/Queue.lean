import ProcLisp.Queue

/-!
# The queue as a list

A queue is the list of the elements that were not read yet. Giving up those that were read does not
change it, so that over any sequence of uses the pops answer what was pushed, oldest first.
-/

namespace ProcLisp.Queue

variable {α : Type}

@[simp] theorem toList_empty : ({} : Queue α).toList = [] := rfl

@[simp] theorem toList_push (q : Queue α) (x : α) : (q.push x).toList = q.toList ++ [x] := by
  have bound : q.head ≤ q.items.toList.length := q.head_le
  simp [toList, push, List.drop_append_of_le_length bound]

theorem toList_compact (q : Queue α) : q.compact.toList = q.toList := by
  unfold compact
  split
  · simp [toList, List.take_of_length_le]
  · rfl

theorem toList_of_pop {q rest : Queue α} {x : α} (popped : q.pop? = some (x, rest)) :
    q.toList = x :: rest.toList := by
  unfold pop? at popped
  split at popped
  · rename_i bound
    obtain ⟨rfl, rfl⟩ := Prod.mk.inj (Option.some.inj popped)
    rw [toList_compact, toList, toList, List.drop_eq_getElem_cons (by simpa using bound)]
    rfl
  · simp at popped

theorem toList_of_pop_none {q : Queue α} (popped : q.pop? = none) : q.toList = [] := by
  unfold pop? at popped
  split at popped
  · simp at popped
  · rename_i bound
    simpa [toList] using Nat.le_of_not_lt bound

theorem head?_toList (q : Queue α) : q.toList.head? = q.pop?.map Prod.fst := by
  cases popped : q.pop? with
  | none => rw [toList_of_pop_none popped]; rfl
  | some found =>
    obtain ⟨x, rest⟩ := found
    rw [toList_of_pop popped]
    rfl

theorem length_toList (q : Queue α) : q.toList.length = q.size := by
  simp [toList, size]

/-! ### What was read is given up -/

/-- Few elements that were read are kept, or more that were not. -/
def Slim (q : Queue α) : Prop := q.head < slack ∨ q.head * 2 < q.items.size

theorem slim_compact (q : Queue α) : q.compact.Slim := by
  unfold compact
  split
  · exact .inl (by simp [slack])
  · rename_i kept
    unfold Slim
    omega

theorem Slim.push {q : Queue α} (slim : q.Slim) (x : α) : (q.push x).Slim := by
  refine slim.imp_right fun half => ?_
  simp only [Queue.push, Array.size_push]
  omega

theorem slim_of_pop {q rest : Queue α} {x : α} (popped : q.pop? = some (x, rest)) : rest.Slim := by
  unfold pop? at popped
  split at popped
  · obtain ⟨-, rfl⟩ := Prod.mk.inj (Option.some.inj popped)
    exact slim_compact _
  · cases popped

/-! ### First in, first out -/

/-- What an owner does with a queue. -/
inductive Use (α : Type) where
  | push (x : α)
  | pop
  | clear

/-- A queue, with what was pushed and what pops answered since it was last cleared. -/
structure Ledger (α : Type) where
  queue : Queue α := {}
  pushed : List α := []
  popped : List α := []

namespace Ledger

/-- A pop of an empty queue answers nothing and changes nothing. -/
def use (l : Ledger α) : Use α → Ledger α
  | .push x => { l with queue := l.queue.push x, pushed := l.pushed ++ [x] }
  | .pop => match l.queue.pop? with
    | some (x, rest) => { l with queue := rest, popped := l.popped ++ [x] }
    | none => l
  | .clear => { queue := l.queue.clear }

/-- What pops answered and what is in the queue make up what was pushed. -/
structure Balanced (l : Ledger α) : Prop where
  account : l.pushed = l.popped ++ l.queue.toList
  slim : l.queue.Slim

theorem balanced_empty : ({} : Ledger α).Balanced := ⟨rfl, .inl (Nat.zero_lt_succ _)⟩

theorem Balanced.use {l : Ledger α} (balanced : l.Balanced) (u : Use α) : (l.use u).Balanced := by
  obtain ⟨account, slim⟩ := balanced
  cases u with
  | push x =>
    refine ⟨?_, slim.push x⟩
    show l.pushed ++ [x] = l.popped ++ (l.queue.push x).toList
    rw [toList_push, account, List.append_assoc]
  | pop =>
    unfold Ledger.use
    cases popped : l.queue.pop? with
    | none => exact ⟨account, slim⟩
    | some found =>
      obtain ⟨x, rest⟩ := found
      refine ⟨?_, slim_of_pop popped⟩
      show l.pushed = l.popped ++ [x] ++ rest.toList
      rw [account, toList_of_pop popped, List.append_assoc]
      rfl
  | clear => exact balanced_empty

theorem Balanced.uses {l : Ledger α} (balanced : l.Balanced) (uses : List (Use α)) :
    (uses.foldl Ledger.use l).Balanced := by
  induction uses generalizing l with
  | nil => exact balanced
  | cons u uses ih => exact ih (balanced.use u)

end Ledger

/-- After any uses the next pop answers the oldest element that was pushed since the last clear and
that no pop has answered, and the queue counts these elements. -/
theorem first_in_first_out (uses : List (Use α)) :
    let l := uses.foldl Ledger.use {}
    l.queue.pop?.map Prod.fst = l.pushed[l.popped.length]? ∧
      (l.queue.pop? = none ↔ l.popped = l.pushed) ∧
      l.popped <+: l.pushed ∧
      l.popped.length + l.queue.size = l.pushed.length ∧
      l.queue.head ≤ l.queue.items.size ∧
      (l.queue.head < slack ∨ l.queue.head * 2 < l.queue.items.size) := by
  intro l
  obtain ⟨account, slim⟩ : l.Balanced := Ledger.balanced_empty.uses uses
  refine ⟨?_, ?_, ?_, ?_, l.queue.head_le, slim⟩
  · rw [account, List.getElem?_append_right (Nat.le_refl _), Nat.sub_self,
      ← List.head?_eq_getElem?, head?_toList]
  · rw [account, List.self_eq_append_right, ← List.head?_eq_none_iff, head?_toList,
      Option.map_eq_none_iff]
  · rw [account]
    exact List.prefix_append _ _
  · rw [account, List.length_append, length_toList]

end ProcLisp.Queue
