import ProcLisp.Machine.Run
import ProcLisp.Queue

/-!
# Processes

A process is a machine with a mailbox and watchers. The scheduler keeps a history of births, mail and
ends. Nothing is decided by it: it is what statements about whole runs speak of. A gate is what
others wait at until it is closed.
-/

namespace ProcLisp

inductive ProcessState where
  | ready | running | blocked | terminated
  deriving DecidableEq, Repr

def ProcessState.name : ProcessState → Bytes
  | .ready => ascii "ready"
  | .running => ascii "running"
  | .blocked => ascii "blocked"
  | .terminated => ascii "terminated"

/-- The name of the state with a number. -/
def ProcessState.label (n : Int) : Bytes :=
  Bytes.nameAt ([ready, running, blocked, terminated].map name) (ascii "state") n

/-- A live process. While it runs its machine is with the worker that runs it. -/
structure Process where
  parent : Pid
  machine : Machine
  state : ProcessState := .ready
  mailbox : Queue Value := {}
  /-- In the order in which they began to watch, each once. -/
  watchers : List Pid := []

/-- What became of a process. -/
inductive Exit where
  /-- It ran out of work. -/
  | finished (value : Value) (env : Env)
  | ended (ending : Ending)

namespace Exit

def reason : Exit → Value
  | finished _ _ => Machine.normalExit
  | ended e => e.reason

def failure? : Exit → Option Failure
  | finished _ _ => none
  | ended e => e.failure?

/-- How the machine of a process that stopped came to its end. -/
def ofMachine (m : Machine) : Exit :=
  match m.ending? with
  | some e => ended e
  | none => finished m.val m.env

end Exit

/-- A view of a process at one point in time. -/
structure ProcessInfo where
  pid : Pid
  parent : Pid := Pid.nil
  state : ProcessState
  mailbox : Nat := 0
  watchers : Nat := 0
  reductions : UInt64 := 0
  reason : Value

namespace Process

def info (p : Process) (pid : Pid) : ProcessInfo :=
  { pid, parent := p.parent, state := p.state, mailbox := p.mailbox.size,
    watchers := p.watchers.length, reductions := p.machine.reductions, reason := .nothing }

def addWatcher (p : Process) (w : Pid) : Process :=
  if p.watchers.contains w then p else { p with watchers := p.watchers ++ [w] }

end Process

/-- What watchers receive: `(exit <pid> <reason>)`. -/
def exitMessage (pid : Pid) (reason : Value) : Value :=
  .list [.sym (ascii "exit"), .pid pid, reason.copy]

/-- A root process that terminated instead of finishing. -/
def exitText (pid : Pid) (reason : Value) : Bytes :=
  ascii "process " ++ pid.toBytes ++ ascii " terminated: " ++ reason.encode

/-! ### What happens to processes -/

inductive Event where
  | registered (p : Pid)
  /-- A message to a process that is there or was. -/
  | sent (sender receiver : Pid) (msg : Value)
  /-- A process got a message out of its mailbox, or straight from the sender while it waited. -/
  | received (p : Pid) (msg : Value)
  /-- A message went to a machine that did not wait for one, and is lost. -/
  | misdirected (p : Pid) (msg : Value)
  /-- A process ended and left mail unread. -/
  | finalized (p : Pid) (unread : List Value)
  /-- A process asked to be told of the end of a process that is there or was. -/
  | watched (watcher target : Pid)
  /-- A watcher was sent the message that tells it of an end. -/
  | notified (target watcher : Pid) (msg : Value)

/-- Newest first. -/
abbrev History := List Event

/-- Closing a gate twice is a fault that nothing recovers from. -/
inductive Gate where
  | opened | closed | broken
  deriving DecidableEq, Repr

def Gate.close : Gate → Gate
  | opened => closed
  | _ => broken

end ProcLisp
