import ProcLisp.Machine.Step

/-!
# Running for a number of reductions

`run` dispatches until the budget is used up or the machine stops. A syscall's charge is paid out
of the same budget; what it owes beyond the budget is forgiven.
-/

namespace ProcLisp

/-- How a run ended. -/
inductive Status where
  /-- The budget is used up and the machine can go on. -/
  | yielded
  /-- The machine waits for a message. -/
  | blocked
  /-- There is nothing left to evaluate. -/
  | done
  | terminated
  deriving DecidableEq, Repr

def Status.name : Status → Bytes
  | .yielded => ascii "yielded"
  | .blocked => ascii "blocked"
  | .done => ascii "done"
  | .terminated => ascii "terminated"

/-- The name of the status with a number. -/
def Status.label (n : Int) : Bytes :=
  Bytes.nameAt ([yielded, blocked, done, terminated].map name) (ascii "status") n

/-- A machine used in a way that its state does not allow. -/
structure MachineError where
  reason : Bytes
  code : Int
  deriving DecidableEq, Repr

namespace MachineError

def message (e : MachineError) : Bytes :=
  ascii "VM error: " ++ e.reason ++ ascii " (code: " ++ Bytes.ofInt e.code ++ ascii ")"

def notLoaded : MachineError := ⟨ascii "VM has no program loaded", 1⟩
def notWaiting : MachineError := ⟨ascii "VM resumed while not waiting", 2⟩
def blockedAlone : MachineError := ⟨ascii "VM blocked without a process host", 3⟩
def ended : MachineError := ⟨ascii "VM terminated", 4⟩

def all : List MachineError := [notLoaded, notWaiting, blockedAlone, ended]

end MachineError

/-- Where a run leaves machine and state. -/
structure Progress (σ : Type) where
  status : Status
  machine : Machine
  state : σ

namespace Machine

variable {σ : Type}

/-- The status of a machine that does not go on by itself. -/
def halted? (m : Machine) : Option (Status × Machine) :=
  match m.control with
  | .idle => some (.terminated, m.fail (.unknown MachineError.notLoaded.message))
  | .waiting => some (.blocked, m)
  | .done => some (.done, m)
  | .terminated _ => some (.terminated, m)
  | _ => none

/-- A machine whose run is over, halted or not. -/
def pause (m : Machine) (s : σ) : Progress σ :=
  match m.halted? with
  | some (status, m) => ⟨status, m, s⟩
  | none => ⟨.yielded, m, s⟩

/-- Runs for at most `budget` reductions and `fuel` dispatches. -/
def runFor (cfg : Config) (world : World σ) : (fuel budget : Nat) → Machine → σ → Progress σ
  | 0, _, m, s => m.pause s
  | fuel + 1, budget, m, s =>
    if budget = 0 || m.halted?.isSome then m.pause s
    else match m.next? cfg world s with
      | none => ⟨.done, { m with control := .done }, s⟩
      | some d => runFor cfg world fuel (budget - 1 - d.charge) (m.after d) d.state

/-- Runs for at most `budget` reductions, and the charge of the last syscall. A dispatch takes at
least one, so there are not more than `budget` of them. -/
def run (cfg : Config) (world : World σ) (budget : Nat) (m : Machine) (s : σ) : Progress σ :=
  runFor cfg world budget budget m s

/-- The reductions of one round of a run to the end. -/
def round : Nat := 1048576

/-- Runs until the machine stops, for so many rounds at most. -/
def complete (cfg : Config) (world : World σ) : (rounds : Nat) → Machine → σ → Progress σ
  | 0, m, s => m.pause s
  | rounds + 1, m, s =>
    let p := m.run cfg world round s
    if p.status = .yielded then complete cfg world rounds p.machine p.state else p

/-- Hands a message to a machine that waits for one. -/
def resume (m : Machine) (msg : Value) : Except MachineError Machine :=
  match m.control with
  | .waiting => .ok { m with control := .returning, val := msg }
  | _ => .error .notWaiting

/-- How an evaluation ended. -/
inductive Outcome where
  | value (v : Value) (env : Env)
  | failed (f : Failure)
  | error (e : MachineError)

/-- The outcome of a machine after a run, if it stopped. -/
def outcome? (m : Machine) : Status → Option Outcome
  | .yielded => none
  | .done => some (.value m.val m.env)
  | .blocked => some (.error .blockedAlone)
  | .terminated => match m.ending?.bind Ending.failure? with
    | some f => some (.failed f)
    | none => some (.error .ended)

end Machine
end ProcLisp
