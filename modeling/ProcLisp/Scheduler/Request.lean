import ProcLisp.Scheduler.Slice

/-!
# Requests from outside
-/

namespace ProcLisp.Scheduler

/-- A scheduler that has not run anything yet. A slice length that is not positive stands for the
default. -/
def create (table : SyscallTable) (slice maxFrames : Int) (journal : Journal)
    (ownsJournal : Bool) (workers clock : Nat) (pids : Pid.Source := .counting) : Scheduler :=
  { machine := Machine.Config.ofBound table maxFrames
    slice := if slice ≤ 0 then defaultSlice else slice.toNat
    journal, ownsJournal, workers, clock, pids }

/-- Starts a root process that evaluates `exprs` from `env`. -/
def spawn (s : Scheduler) (exprs : List Value) (env : Env) : Except Fault (Pid × Scheduler) :=
  s.register (({} : Machine).load exprs env) Pid.nil

/-- Delivers a message from outside of any process. -/
def sendOutside (s : Scheduler) (receiver : Pid) (msg : Value) : Except Failure Scheduler :=
  s.send Pid.nil receiver msg.copy

/-- What an execution answers. -/
inductive Answer where
  | value (v : Value) (env : Env)
  | failed (f : Failure)
  | exited (pid : Pid) (reason : Value)

/-- The answer for a process that is gone. -/
def answer? (s : Scheduler) (p : Pid) : Option Answer :=
  match s.retired[p]? with
  | none => none
  | some (.finished v env) => some (.value v env)
  | some (.ended (.failed f)) => some (.failed f)
  | some (.ended (.exited reason)) => some (.exited p reason)

/-- Runs slices until the gate of process `p` is closed, at most `most`. -/
def await (s : Scheduler) (p : Pid) (most : Nat) : Nat × Scheduler :=
  runUntil (fun s => s.doneGates[p]? == some .closed) most 0 s

/-- Whether a wait for the end of all processes returns at once. -/
def idle (s : Scheduler) : Bool := s.live == 0 || s.idleGate == .closed

def info (s : Scheduler) (p : Pid) : Except Failure (ProcessInfo × Scheduler) :=
  match s.process? p with
  | some q => .ok (q.info p, s)
  | none =>
    if s.isRetired p then
      let (reason, s) := s.recordedReason p
      .ok ({ pid := p, state := .terminated, reason }, s)
    else .error (.unknownProcess p)

/-- The live processes, in the order of their pids. -/
def processes (s : Scheduler) : List ProcessInfo := s.procs.toList.map fun (p, q) => q.info p

structure Stats where
  live : Nat
  retired : Nat
  dropped : Nat

def stats (s : Scheduler) : Stats := ⟨s.procs.size, s.retired.size, s.dropped⟩

def start (s : Scheduler) : Except Fault Scheduler :=
  if s.started then .error .alreadyStarted
  else .ok ({ s with started := true }.log .debug "scheduler started"
    [(ascii "workers", Bytes.ofNat s.workers), (ascii "reductions", Bytes.ofNat s.slice)])

/-- Stops for good. Processes that are still live are abandoned. -/
def stop (s : Scheduler) : Scheduler :=
  if s.stopped then s
  else
    let s := { s with stopped := true }
    let s := if s.ownsJournal then { s with journal := s.journal.close } else s
    s.log .debug "scheduler stopped" []

end ProcLisp.Scheduler
