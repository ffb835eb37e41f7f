import Std.Data.TreeMap
import ProcLisp.Journal.Record

/-!
# Records in memory

The cache holds the last record of each pid and when it was used last. A record older than the
retention is gone, and over capacity the least recently used one is dropped. Looking a record up
makes it the most recent one and does not extend its life.
-/

namespace ProcLisp.Journal

structure Cached where
  record : Record
  /-- When it was stored, in nanoseconds of the clock. -/
  since : Nat
  /-- The turn in which it was used last. -/
  used : Nat

structure Cache where
  /-- In nanoseconds; zero keeps records. -/
  retention : Nat := 0
  /-- Zero is unbounded. -/
  capacity : Nat := 0
  items : Std.TreeMap Pid Cached := ∅
  /-- The number of uses so far. -/
  turn : Nat := 0

namespace Cache

def expired (c : Cache) (now : Nat) (i : Cached) : Bool :=
  c.retention != 0 && i.since + c.retention < now

/-- What has not expired, most recently used first. -/
def current (c : Cache) (now : Nat) : List Cached :=
  (c.items.values.filter fun i => !c.expired now i).mergeSort fun i j => j.used ≤ i.used

def records (c : Cache) (now : Nat) : List Record := (c.current now).map (·.record)

/-- Uses an item in a turn of its own. -/
def use (c : Cache) (i : Cached) : Cache :=
  { c with items := c.items.insert i.record.pid { i with used := c.turn }, turn := c.turn + 1 }

/-- The cache with room for one more record: what has expired goes, and then the least recently used
record if there are still too many. -/
def makeRoom (c : Cache) (now : Nat) : Cache :=
  let kept := c.current now
  let kept := if c.capacity ≤ kept.length then kept.dropLast else kept
  { c with items := .ofList (kept.map fun i => (i.record.pid, i)) }

/-- Stores a record in place of any other of its pid. -/
def set (c : Cache) (now : Nat) (r : Record) : Cache :=
  let known := c.items[r.pid]?.any fun i => !c.expired now i
  let c := if c.capacity = 0 || known then c else c.makeRoom now
  c.use ⟨r, now, 0⟩

def get? (c : Cache) (now : Nat) (p : Pid) : Option (Record × Cache) :=
  match c.items[p]? with
  | some i => if c.expired now i then none else some (i.record, c.use i)
  | none => none

end Cache
end ProcLisp.Journal
