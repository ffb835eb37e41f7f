import ProcLisp.Journal.Cache
import ProcLisp.Log

/-!
# The exit journal

A journal keeps the exit records of terminated processes, so that a pid stays meaningful after its
process is gone. With an archive every record is also written there, and a look-up falls back to
it; iteration then walks the archive in key order.
-/

namespace ProcLisp

structure Journal where
  cache : Journal.Cache := {}
  archive : Option (Dict Bytes Bytes) := none
  closed : Bool := false
  /-- Newest first. -/
  logs : List Log.Entry := []

namespace Journal

inductive Fault where
  | closed
  | corrupt (c : Corruption)
  deriving DecidableEq, Repr

def Fault.message : Fault → Bytes
  | .closed => ascii "journal is closed"
  | .corrupt c => c.message

/-- The wording of a failure underneath the journal. -/
def internalMessage (cause : Bytes) : Bytes := ascii "internal error: " ++ cause

def fresh (retention : Int) (capacity : Nat) (archive : Option (Dict Bytes Bytes)) : Journal :=
  { cache := { retention := retention.toNat, capacity }, archive }

/-- Keeps a record; without a time of its own it gets the clock's. -/
def record (j : Journal) (now : Nat) (pid : Pid) (reason : Value) (at? : Option Int64) :
    Except Fault Journal :=
  if j.closed then .error .closed
  else
    let r : Record := ⟨pid, reason, at?.getD (Int64.ofNat now)⟩
    .ok { j with
      cache := j.cache.set now r
      archive := j.archive.map fun a => Dict.insert a (key pid) r.encode }

/-- An entry of the archive in memory's place. -/
def archived (j : Journal) (pid : Pid) : Option Record × Journal :=
  match j.archive with
  | none => (none, j)
  | some a =>
    if j.closed then (none, j)
    else match Dict.find? a (key pid) with
      | none => (none, j)
      | some bytes => match Record.decode pid bytes with
        | .ok r => (some r, j)
        | .error c =>
          let entry : Log.Entry :=
            { level := .error, message := ascii "exit archive lookup failed",
              group := [ascii "journal"],
              attrs := [(ascii "pid", pid.toBytes), (ascii "error", c.message)] }
          (none, { j with logs := entry :: j.logs })

def lookup (j : Journal) (now : Nat) (pid : Pid) : Option Record × Journal :=
  match j.cache.get? now pid with
  | some (r, cache) => (some r, { j with cache })
  | none => j.archived pid

/-- Visits records until `visit` says no. -/
def visitAll {ρ : Type} (visit : ρ → Record → ρ × Bool) : ρ → List Record → ρ
  | acc, [] => acc
  | acc, r :: rest =>
    let (acc, more) := visit acc r
    if more then visitAll visit acc rest else acc

/-- The record of an archive entry whose key starts as records' keys do. -/
def ofEntry (k bytes : Bytes) : Except Corruption Record :=
  match Pid.parse (k.drop keyLead.length) with
  | .error f => .error ⟨k, f.message⟩
  | .ok p => Record.decode p bytes

/-- Visits the records of an archive in key order. -/
def visitArchive {ρ : Type} (visit : ρ → Record → ρ × Bool) :
    ρ → Dict Bytes Bytes → ρ × Option Corruption
  | acc, [] => (acc, none)
  | acc, (k, bytes) :: rest =>
    if keyLead.isPrefixOf k then
      match ofEntry k bytes with
      | .error c => (acc, some c)
      | .ok r =>
        let (acc, more) := visit acc r
        if more then visitArchive visit acc rest else (acc, none)
    else visitArchive visit acc rest

/-- Visits the archive in key order, or the records in memory, most recently used first. -/
def iterate {ρ : Type} (j : Journal) (now : Nat) (visit : ρ → Record → ρ × Bool) (start : ρ) :
    ρ × Option Fault :=
  if j.closed then (start, some .closed)
  else match j.archive with
    | none => (visitAll visit start (j.cache.records now), none)
    | some a =>
      let (acc, c) := visitArchive visit start a
      (acc, c.map .corrupt)

/-- The number of records in memory. -/
def size (j : Journal) (now : Nat) : Nat := (j.cache.records now).length

def close (j : Journal) : Journal := { j with closed := true }

/-- The journal after it was closed and opened again: memory is empty and the archive stays. -/
def reopen (j : Journal) : Journal :=
  { j with cache := { j.cache with items := ∅ }, closed := false }

/-- Writes an entry to the archive as it is. -/
def put (j : Journal) (k bytes : Bytes) : Journal :=
  { j with archive := j.archive.map fun a => Dict.insert a k bytes }

end Journal
end ProcLisp
