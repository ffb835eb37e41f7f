/-!
# A compacting queue

Elements are appended to an array and read from `head`. What was read stays in place until it
makes up half of the array; then the rest moves to the front.
-/

namespace ProcLisp

structure Queue (α : Type) where
  items : Array α := #[]
  head : Nat := 0
  head_le : head ≤ items.size := by exact Nat.zero_le _

namespace Queue

variable {α : Type}

def push (q : Queue α) (x : α) : Queue α :=
  ⟨q.items.push x, q.head, by simp; exact Nat.le_succ_of_le q.head_le⟩

/-- How many elements must have been read before they are given up. -/
def slack : Nat := 32

/-- Gives up the elements that were read, once they dominate the array. -/
def compact (q : Queue α) : Queue α :=
  if slack ≤ q.head ∧ q.items.size ≤ q.head * 2 then
    ⟨q.items.extract q.head q.items.size, 0, Nat.zero_le _⟩
  else q

/-- The oldest element and the queue without it. -/
def pop? (q : Queue α) : Option (α × Queue α) :=
  if h : q.head < q.items.size then
    some (q.items[q.head], compact ⟨q.items, q.head + 1, h⟩)
  else none

def size (q : Queue α) : Nat := q.items.size - q.head

/-- Gives up all elements, and the array with them. -/
def clear (_ : Queue α) : Queue α := {}

/-- The elements, oldest first. -/
def toList (q : Queue α) : List α := q.items.toList.drop q.head

end Queue
end ProcLisp
