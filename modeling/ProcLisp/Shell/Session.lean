import ProcLisp.Shell.Repl

/-!
# A prompt over a scheduler

A session carries out what the prompt asks for. Its evaluations are root processes of one scheduler;
a result is handed back once its process is gone, or at once when the session was cancelled.
-/

namespace ProcLisp.Shell

/-- The evaluation the prompt waits for. -/
structure Evaluation where
  pid : Pid
  /-- Known, but not handed back yet. -/
  result? : Option Result := none

structure Session where
  repl : Repl := {}
  scheduler : Scheduler
  evaluation : Option Evaluation := none
  cancelled : Bool := false
  /-- How many slices an event may run before a loop is given up on. -/
  patience : Nat := 20000

/-- What a session shows in answer to an event. -/
structure Shown where
  lines : List Bytes := []
  quit : Bool := false

namespace Session

/-- A line for each live process, in the order of their creation. -/
def processTable (s : Scheduler) : Bytes :=
  let pad := fun (name : Bytes) => name ++ List.replicate (10 - name.length) 0x20
  match s.processes with
  | [] => ascii "no live processes"
  | infos => Bytes.join (ascii "\n") (infos.map fun i =>
      i.pid.toBytes ++ ascii "  " ++ pad i.state.name ++
        ascii " mailbox=" ++ Bytes.ofNat i.mailbox ++
        ascii " watchers=" ++ Bytes.ofNat i.watchers ++
        ascii " reductions=" ++ Bytes.ofNat i.reductions.toNat)

def status (s : Session) : Bytes :=
  if s.repl.quitting then []
  else
    let t := s.scheduler.stats
    ascii "live " ++ Bytes.ofNat t.live ++ ascii "  retired " ++ Bytes.ofNat t.retired ++
      ascii "  dropped " ++ Bytes.ofNat t.dropped

/-- Notes the result of the evaluation if its process is gone. -/
def note (s : Session) : Session :=
  match s.evaluation with
  | some ⟨pid, none⟩ =>
    { s with evaluation := some ⟨pid, (s.scheduler.answer? pid).map Result.ofAnswer⟩ }
  | _ => s

/-- Runs every slice there is to run. -/
def drain (s : Session) : Session :=
  { s with scheduler := (s.scheduler.drain s.patience).2 }.note

/-- Starts an evaluation and runs it to its end. -/
def evaluate (s : Session) (exprs : List Value) (env : Env) : Session :=
  match s.scheduler.spawn exprs env with
  | .error f => { s with evaluation := some ⟨Pid.nil, some (.error (.plain f.message))⟩ }
  | .ok (pid, scheduler) =>
    let result? := if s.cancelled then some (.error .interrupted) else none
    { s with
      scheduler := (scheduler.await pid s.patience).2
      evaluation := some ⟨pid, result?⟩ }.note

def perform (s : Session) (shown : Shown) : List Repl.Action → Session × Shown
  | [] => (s, shown)
  | .print line :: rest => s.perform { shown with lines := shown.lines ++ [line] } rest
  | .listProcesses :: rest =>
    s.perform { shown with lines := shown.lines ++ [processTable s.scheduler] } rest
  | .evaluate exprs env :: rest => (s.evaluate exprs env).perform shown rest
  | .quit :: rest => s.perform { shown with quit := true } rest

/-- Takes an event; a result it leads to is not handed back yet. -/
def take (s : Session) (e : Repl.Event) : Session × Shown :=
  let (repl, actions) := s.repl.update e
  { s with repl }.perform {} actions

/-- Runs all else and hands a known result to the prompt. Without one nothing runs. -/
def deliver (s : Session) : Session × Shown :=
  match s.evaluation with
  | some ⟨_, some r⟩ => { s.drain with evaluation := none }.take (.result r)
  | _ => (s, {})

/-- Takes an event and hands back the result it leads to; one that was held before stays so. -/
def answer (s : Session) (e : Repl.Event) : Session × Shown :=
  let (next, first) := s.take e
  if s.repl.running then (next, first)
  else
    let (last, second) := next.deliver
    (last, ⟨first.lines ++ second.lines, first.quit || second.quit⟩)

/-- Sends a message from outside and runs what it wakes. -/
def send (s : Session) (receiver : Pid) (msg : Value) : Session × Shown :=
  match s.scheduler.sendOutside receiver msg with
  | .ok scheduler => ({ s with scheduler }.drain, {})
  | .error f => (s.drain, { lines := [f.message] })

/-- From now on evaluations are interrupted, the present one included. -/
def cancel (s : Session) : Session :=
  let s := { s with cancelled := true }.note
  match s.evaluation with
  | some ⟨pid, none⟩ => { s with evaluation := some ⟨pid, some (.error .interrupted)⟩ }
  | _ => s

end Session
end ProcLisp.Shell
