import ProcLisp.Scheduler.Basic

/-!
# Slices

A worker takes the process at the head of the ready queue, runs its machine for a slice, and puts
the process back, parks it, or retires it.
-/

namespace ProcLisp.Scheduler

/-- Blocks a process, unless a message arrived while it decided to wait. -/
def park (s : Scheduler) (p : Pid) (m : Machine) : Scheduler :=
  match s.popMail p with
  | some (msg, s) => s.hand p m msg
  | none => s.update p fun q => { q with machine := m, state := .blocked }

/-- Writes the exit of a process to the journal. -/
def recordExit (s : Scheduler) (p : Pid) (reason : Value) : Scheduler :=
  match s.journal.record s.clock p reason none with
  | .ok journal => { s with journal }.tick
  | .error f => s.log .error "failed to record exit"
      [(ascii "pid", p.toBytes), (ascii "error", f.message)]

/-- Takes a process out of the table, and its mail with it. -/
def bury (s : Scheduler) (p : Pid) (q : Process) (exit : Exit) : Scheduler :=
  { s with procs := s.procs.erase p, retired := s.retired.insert p exit }.mark
    (.finalized p q.mailbox.toList)

def logExit (s : Scheduler) (p : Pid) (q : Process) (exit : Exit) : Scheduler :=
  let attrs := [(ascii "pid", p.toBytes), (ascii "reason", exit.reason.encode),
    (ascii "discarded", Bytes.ofNat q.mailbox.size)]
  match exit.failure? with
  | some _ => s.log .info "process failed" attrs
  | none => s.log .debug "process exited" attrs

/-- Lets those go on who wait for the end of a process. -/
def release (s : Scheduler) (p : Pid) : Scheduler :=
  { s with
    doneGates := s.doneGates.modify p Gate.close
    live := s.live - 1
    idleGate := if s.live - 1 = 0 then s.idleGate.close else s.idleGate }

/-- Retires a process: records its exit, forgets its mail and tells its watchers. -/
def retire (s : Scheduler) (p : Pid) (q : Process) (exit : Exit) : Scheduler :=
  let s := ((s.recordExit p exit.reason).bury p q exit).logExit p q exit
  (q.watchers.foldl (fun s w => s.notify p exit.reason w) s).release p

/-- Runs a process for one slice. -/
def runSlice (s : Scheduler) (p : Pid) : Scheduler :=
  match s.process? p with
  | none => s
  | some q =>
    let s := s.update p fun q => { q with state := .running }
    let r := q.machine.run s.machine (world p) s.slice s
    let s := r.state.tick
    match r.status with
    | .yielded => (s.update p fun q => { q with machine := r.machine, state := .ready }).enqueue p
    | .blocked => s.park p r.machine
    | _ => match s.process? p with
      | some q => s.retire p q (Exit.ofMachine r.machine)
      | none => s

/-- Runs the process at the head of the ready queue, unless the scheduler is stopped. -/
def step? (s : Scheduler) : Option (Pid × Scheduler) :=
  if s.stopped then none
  else match s.ready.pop? with
    | none => none
    | some (p, rest) => some (p, { s with ready := rest }.runSlice p)

/-- Runs slices until the queue is empty, `halt` holds, or `most` were run; and their number, after
`done` of them. -/
def runUntil (halt : Scheduler → Bool) : (most done : Nat) → Scheduler → Nat × Scheduler
  | 0, done, s => (done, s)
  | most + 1, done, s =>
    if halt s then (done, s)
    else match s.step? with
      | none => (done, s)
      | some (_, s) => runUntil halt most (done + 1) s

def drain (s : Scheduler) (most : Nat) : Nat × Scheduler := runUntil (fun _ => false) most 0 s

/-- Nanoseconds for which a reduction is reckoned. -/
def reductionTime : Nat := 125

/-- Reductions after which a run with a limit is given up, however much time it has. -/
def longestRun : Nat := 16000000

/-- The slices that fit into a time. -/
def slicesWithin (s : Scheduler) (nanoseconds : Nat) : Nat :=
  min longestRun (nanoseconds / reductionTime) / s.slice + 1

end ProcLisp.Scheduler
