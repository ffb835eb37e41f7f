import Std.Data.TreeMap
import ProcLisp.Journal.Basic
import ProcLisp.Scheduler.Process

/-!
# The scheduler's state, and mail between processes

The scheduler knows every live process and what became of the others. A message to a live process
goes to its mailbox, or straight to its machine if the process waits; one to a process that is gone
is dropped. Watchers learn of an exit by a message.
-/

namespace ProcLisp

structure Scheduler where
  machine : Machine.Config
  /-- The length of a slice in reductions. -/
  slice : Nat := 200
  workers : Nat := 1
  procs : Std.TreeMap Pid Process := ∅
  retired : Std.TreeMap Pid Exit := ∅
  ready : Queue Pid := {}
  live : Nat := 0
  /-- Closed when the last live process ends, and opened anew for the next one. -/
  idleGate : Gate := .opened
  /-- A gate for every process, closed at its end. -/
  doneGates : Std.TreeMap Pid Gate := ∅
  dropped : Nat := 0
  /-- Which dropped messages are logged. -/
  limiter : Log.Limiter := {}
  journal : Journal := {}
  ownsJournal : Bool := true
  pids : Pid.Source := .counting
  /-- How many pids were issued. -/
  issued : Nat := 0
  /-- Nanoseconds since the epoch. -/
  clock : Nat := 0
  started : Bool := false
  stopped : Bool := false
  /-- Newest first. -/
  logs : List Log.Entry := []
  printed : Transcript := []
  history : History := []

namespace Scheduler

def defaultSlice : Nat := 200

inductive Fault where
  | stopped
  | alreadyStarted
  deriving DecidableEq, Repr

def Fault.message : Fault → Bytes
  | .stopped => ascii "scheduler stopped"
  | .alreadyStarted => ascii "scheduler already started"

/-- The reason reported for a process whose exit record is gone. -/
def noProcess : Value := .sym (ascii "noproc")

def note (s : Scheduler) (group : List Bytes) (level : Log.Level) (message : String)
    (attrs : List (Bytes × Bytes)) : Scheduler :=
  { s with logs := { level, message := ascii message, group, attrs } :: s.logs }

def log (s : Scheduler) (level : Log.Level) (message : String) (attrs : List (Bytes × Bytes)) :
    Scheduler :=
  s.note [ascii "scheduler"] level message attrs

def mark (s : Scheduler) (e : Event) : Scheduler := { s with history := e :: s.history }

/-- Time passes with everything that is done. -/
def tick (s : Scheduler) : Scheduler := { s with clock := s.clock + 1000 }

def enqueue (s : Scheduler) (p : Pid) : Scheduler := { s with ready := s.ready.push p }

def update (s : Scheduler) (p : Pid) (f : Process → Process) : Scheduler :=
  { s with procs := s.procs.modify p f }

def process? (s : Scheduler) (p : Pid) : Option Process := s.procs[p]?

def isRetired (s : Scheduler) (p : Pid) : Bool := s.retired.contains p

/-- Makes a machine a new process, ready to run. -/
def register (s : Scheduler) (m : Machine) (parent : Pid) : Except Fault (Pid × Scheduler) :=
  if s.stopped then .error .stopped
  else
    let pid := s.pids.pid (s.issued + 1)
    let s := { s with
      issued := s.issued + 1
      procs := s.procs.insert pid { parent, machine := m.adopt pid }
      doneGates := s.doneGates.insert pid .opened
      idleGate := if s.live = 0 then .opened else s.idleGate
      live := s.live + 1 }.mark (.registered pid)
    let s := s.log .debug "process registered"
      [(ascii "pid", pid.toBytes), (ascii "parent", parent.toBytes)]
    .ok (pid, s.enqueue pid)

/-- Hands a message to the machine of a process that waits, and makes the process ready. -/
def hand (s : Scheduler) (p : Pid) (m : Machine) (msg : Value) : Scheduler :=
  match m.resume msg with
  | .ok m =>
    ((s.update p fun q => { q with machine := m, state := .ready }).mark
      (.received p msg)).enqueue p
  | .error _ =>
    ((s.update p fun q => { q with machine := m, state := .ready }).mark
      (.misdirected p msg)).enqueue p

/-- Hands a message to a live process. -/
def deliver (s : Scheduler) (receiver : Pid) (p : Process) (msg : Value) : Scheduler :=
  match p.state with
  | .blocked => s.hand receiver p.machine msg
  | _ => s.update receiver fun p => { p with mailbox := p.mailbox.push msg }

/-- Counts a message to a process that is gone, and logs it unless there were too many of late. -/
def drop (s : Scheduler) (sender receiver : Pid) : Scheduler :=
  let s := { s with dropped := s.dropped + 1 }
  match s.limiter.allow? s.clock with
  | none => s
  | some limiter => { s with limiter }.log .warn "dropped message to terminated process"
      [(ascii "from", sender.toBytes), (ascii "to", receiver.toBytes),
       (ascii "total_dropped", Bytes.ofNat s.dropped)]

/-- Sends a message; only a pid that never existed is refused. -/
def send (s : Scheduler) (sender receiver : Pid) (msg : Value) : Except Failure Scheduler :=
  match s.process? receiver with
  | some p => .ok ((s.mark (.sent sender receiver msg)).deliver receiver p msg)
  | none =>
    if s.isRetired receiver then .ok ((s.mark (.sent sender receiver msg)).drop sender receiver)
    else .error (.unknownProcess receiver)

/-- Tells a watcher about an exit. -/
def notify (s : Scheduler) (target : Pid) (reason : Value) (watcher : Pid) : Scheduler :=
  match s.send target watcher (exitMessage target reason) with
  | .ok s => s.mark (.notified target watcher (exitMessage target reason))
  | .error f => s.log .error "failed to notify watcher"
      [(ascii "watcher", watcher.toBytes), (ascii "target", target.toBytes),
       (ascii "error", f.message)]

/-- The recorded reason of a process that is gone. -/
def recordedReason (s : Scheduler) (p : Pid) : Value × Scheduler :=
  let (r, journal) := s.journal.lookup s.clock p
  ((r.map (·.reason)).getD noProcess, { s with journal }.tick)

/-- Registers a watcher. A target that is gone notifies it straight away. -/
def watch (s : Scheduler) (watcher target : Pid) : Except Failure Scheduler :=
  match s.process? target with
  | some _ => .ok ((s.update target (·.addWatcher watcher)).mark (.watched watcher target))
  | none =>
    if s.isRetired target then
      let (reason, s) := s.recordedReason target
      .ok ((s.mark (.watched watcher target)).notify target reason watcher)
    else .error (.unknownProcess target)

/-- Takes the next message out of the mailbox of a process. -/
def popMail (s : Scheduler) (p : Pid) : Option (Value × Scheduler) :=
  match (s.process? p).bind (·.mailbox.pop?) with
  | some (msg, rest) => some (msg, s.update p fun p => { p with mailbox := rest })
  | none => none

/-- The next message of a process that runs. -/
def receive (s : Scheduler) (p : Pid) : Option (Value × Scheduler) :=
  (s.popMail p).map fun (msg, s) => (msg, s.mark (.received p msg))

def fork (s : Scheduler) (parent : Pid) (birth : Birth) (child : Machine) :
    Except Fault (Pid × Scheduler) :=
  (s.register child parent).map fun (pid, s) =>
    (pid, s.note [ascii "scheduler", ascii "process"] .debug
      (match birth with | .fork => "fork" | .spawn => "spawn")
      [(ascii "parent", parent.toBytes), (ascii "child", pid.toBytes)])

/-- What the machine of process `p` acts on. -/
def world (p : Pid) : World Scheduler where
  print text s := { s with printed := text :: s.printed }
  host := some {
    self := p
    send := fun receiver msg s => (s.send p receiver msg).mapError .language
    receive := fun s => s.receive p
    fork := fun birth child s => (s.fork p birth child).mapError fun f => .plain f.message
    watch := fun target s => (s.watch p target).mapError .language }

end Scheduler
end ProcLisp
