import ProcLisp.Text.Bytes

/-!
# Log entries

Entries that could come in numbers are held back by a limiter: some may come at once, and then so
many in a time.
-/

namespace ProcLisp.Log

inductive Level where
  | debug | info | warn | error
  deriving DecidableEq, Repr

namespace Level

/-- Levels ascend with their urgency. -/
def rank : Level → Nat
  | debug => 0
  | info => 1
  | warn => 2
  | error => 3

def name : Level → Bytes
  | debug => ascii "DEBUG"
  | info => ascii "INFO"
  | warn => ascii "WARN"
  | error => ascii "ERROR"

/-- Whether an entry at `l` passes a handler for `least` and above. -/
def passes (l least : Level) : Bool := least.rank ≤ l.rank

end Level

structure Entry where
  level : Level
  message : Bytes
  /-- Where the entry comes from, in nested groups. -/
  group : List Bytes := []
  attrs : List (Bytes × Bytes) := []
  deriving DecidableEq, Repr

namespace Limiter

/-- The nanoseconds that earn one entry. -/
def price : Nat := 1000000000

/-- So many entries may come at once. -/
def burst : Nat := 5

end Limiter

/-- An allowance of entries that grows with the time, up to the burst. -/
structure Limiter where
  /-- The nanoseconds that are saved up. -/
  credit : Nat := Limiter.burst * Limiter.price
  /-- When the last entry was allowed. -/
  last : Nat := 0
  deriving DecidableEq, Repr

/-- Takes an entry out of the allowance at the time `now`, if there is enough of it. -/
def Limiter.allow? (l : Limiter) (now : Nat) : Option Limiter :=
  let credit := min (burst * price) (l.credit + (now - l.last))
  if price ≤ credit then some ⟨credit - price, now⟩ else none

end ProcLisp.Log
