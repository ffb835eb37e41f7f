import ProcLisp.Proofs.Scheduler.Lasting
import ProcLisp.Proofs.Scheduler.Mail

/-!
# The scenes of a run

A scene is what can be seen just before something is done: the scheduler, and the machine that the
worker has in hand. Which messages are sent in a run, and which of them a process gets, is read here
off the machines and the tables. The history has no part in it.
-/

namespace ProcLisp

namespace Machine

/-- The primitive that the next dispatch performs, with its arguments. -/
def calling? (table : SyscallTable) (m : Machine) : Option (Primitive × List Value) :=
  match m.control with
  | .eval expr => match Form.read table expr with
    | .ok (.primitive p []) => some (p, [])
    | _ => none
  | .returning => match m.stack.pop? with
    | some (.arguments (.primitive p) done [], _) => some (p, (m.val :: done).reverse)
    | _ => none
  | _ => none

/-- The machine waits for a message, or calls `(wait)` next. -/
def awaits (table : SyscallTable) (m : Machine) : Bool :=
  match m.control, m.calling? table with
  | .waiting, _ => true
  | _, some (.wait, []) => true
  | _, _ => false

/-- What a machine that awaited a message got, if it has gone on to `m'`. -/
def gained? (table : SyscallTable) (m m' : Machine) : Option Value :=
  match m'.control with
  | .returning => if m.awaits table then some m'.val else none
  | _ => none

variable {σ : Type} {cfg : Config} {world : World σ} {m m' : Machine} {s : σ} {d : Dispatch σ}
  {table : SyscallTable}

theorem awaits_returning (returning : m.control = .returning) : m.awaits table = false := by
  unfold awaits calling?
  rw [returning]
  dsimp only
  cases m.stack.pop? with
  | none => rfl
  | some top =>
    obtain ⟨k, rest⟩ := top
    cases k with
    | arguments target done pending =>
      cases target with
      | primitive p =>
        cases pending with
        | nil =>
          dsimp only
          have filled : (m.val :: done).reverse ≠ [] := by simp
          cases p <;> first | rfl | (split <;> simp_all)
        | cons e pending => rfl
      | _ => rfl
    | _ => rfl

theorem awaits_waiting (waits : m.control = .waiting) : m.awaits table := by
  simp [awaits, waits]

theorem gained?_self (table : SyscallTable) (m : Machine) : m.gained? table m = none := by
  unfold gained?
  split
  · rename_i returning
    rw [awaits_returning returning]
    rfl
  · rfl

theorem next?_calling (world : World σ) (s : σ) {p : Primitive} {args : List Value}
    (calling : m.calling? cfg.table = some (p, args)) :
    ∃ m' : Machine,
      m.next? cfg world s = some (m'.dispatch cfg world (.primitive p) args m.env s) := by
  cases control : m.control with
  | eval expr =>
    simp only [calling?, control] at calling
    split at calling
    · rename_i p' read
      obtain ⟨rfl, rfl⟩ := Prod.mk.inj (Option.some.inj calling)
      exact ⟨m, by simp [next?, control, evalStep, read, evalForm, evalArgs]⟩
    · cases calling
  | returning =>
    simp only [calling?, control] at calling
    split at calling
    · rename_i p' done rest popped
      obtain ⟨rfl, rfl⟩ := Prod.mk.inj (Option.some.inj calling)
      exact ⟨{ m with stack := rest }, by simp [next?, popped, resumeFrame, control]⟩
    · cases calling
  | _ =>
    simp only [calling?, control] at calling
    cases calling

/-- Nothing is changed but what was printed. -/
def Plain (world : World σ) (s : σ) (d : Dispatch σ) : Prop :=
  d.state = s ∨ ∃ text, d.state = world.print text s

theorem dispatch_plain {target : Target} (other : ∀ p, target ≠ .primitive p) (args : List Value)
    (env : Env) : Plain world s (m.dispatch cfg world target args env s) := by
  cases target with
  | syscall name =>
    simp only [dispatch]
    split
    · exact .inl rfl
    · dsimp only [Plain]
      split
      · exact .inl rfl
      · exact .inr ⟨_, rfl⟩
  | primitive p => exact absurd rfl (other p)
  | list | apply => exact .inl rfl

theorem evalArgs_plain {target : Target} (other : ∀ p, target ≠ .primitive p) (args : List Value)
    (env : Env) : Plain world s (m.evalArgs cfg world target args env s) := by
  cases args with
  | nil => exact dispatch_plain other [] env
  | cons e pending => exact .inl rfl

theorem evalForm_plain {form : Form} (other : ∀ p, form ≠ .primitive p []) (env : Env) :
    Plain world s (m.evalForm cfg world form env s) := by
  cases form with
  | cond clauses => cases clauses <;> exact .inl rfl
  | list items => exact evalArgs_plain (by simp) items env
  | primitive p args =>
    cases args with
    | nil => exact absurd rfl (other p)
    | cons e pending => exact .inl rfl
  | syscall name args => exact evalArgs_plain (by simp) args env
  | _ => exact .inl rfl

theorem resumeFrame_plain {k : Frame} (other : ∀ p done, k ≠ .arguments (.primitive p) done [])
    (v : Value) (env : Env) : Plain world s (m.resumeFrame cfg world k v env s) := by
  cases k with
  | binding name others first rest => cases others <;> exact .inl rfl
  | clause body others =>
    simp only [resumeFrame]
    repeat' split
    all_goals exact .inl rfl
  | arguments target done pending =>
    cases pending with
    | nil =>
      refine dispatch_plain (fun p same => other p done ?_) _ env
      rw [same]
    | cons e pending => exact .inl rfl
  | callee args =>
    simp only [resumeFrame]
    split
    · split
      · exact evalArgs_plain (by simp) args env
      · exact .inl rfl
    · exact .inl rfl
  | _ => exact .inl rfl

/-- Only a primitive that is called acts on anything but the output. -/
theorem next?_plain (silent : m.calling? cfg.table = none) (next : m.next? cfg world s = some d) :
    Plain world s d := by
  cases control : m.control with
  | eval expr =>
    simp only [calling?, control] at silent
    simp only [next?, control, Option.some.injEq] at next
    subst next
    unfold evalStep
    cases read : Form.read cfg.table expr with
    | error f => exact .inl rfl
    | ok form =>
      refine evalForm_plain (fun p same => ?_) _
      rw [read, same] at silent
      cases silent
  | returning =>
    simp only [calling?, control] at silent
    simp only [next?, control] at next
    cases popped : m.stack.pop? with
    | none =>
      rw [popped] at next
      cases next
    | some top =>
      obtain ⟨k, rest⟩ := top
      rw [popped] at next
      obtain rfl := Option.some.inj next
      refine resumeFrame_plain (fun p done same => ?_) _ _
      rw [popped, same] at silent
      cases silent
  | _ =>
    simp only [next?, control] at next
    cases next

/-- A machine that goes on by itself awaits a message only as it calls `(wait)`. -/
theorem calling?_of_awaits (next : m.next? cfg world s = some d) (awaits : m.awaits table) :
    m.calling? table = some (.wait, []) := by
  unfold Machine.awaits at awaits
  split at awaits
  · rename_i control
    simp [next?, control] at next
  · assumption
  · cases awaits

end Machine

namespace Scheduler

structure Letter where
  sender : Pid
  receiver : Pid
  msg : Value

/-- The scheduler, and the machine that the worker has in hand. -/
structure View where
  state : Scheduler
  hand : Option (Pid × Machine) := none

def machineOf? (s : Scheduler) (p : Pid) : Option Machine := (s.procs[p]?).map (·.machine)

/-- The machine of a process, in hand or in the table. -/
def View.machine? (v : View) (p : Pid) : Option Machine :=
  match v.hand with
  | some (r, m) => if r = p then some m else v.state.machineOf? p
  | none => v.state.machineOf? p

/-- The message that a primitive sends on behalf of process `p`, which runs. A process that watches
one that is gone is sent word of its end. -/
def letterOf? (s : Scheduler) (p : Pid) : Primitive → List Value → Option Letter
  | .send, [.pid receiver, msg] => some ⟨p, receiver, msg.copy⟩
  | .watch, [.pid target] =>
    if s.isRetired target then some ⟨target, p, exitMessage target (s.recordedReason target).1⟩
    else none
  | _, _ => none

/-- A state of a run, with what is done next. -/
inductive Scene where
  | asked (request : Request) (s : Scheduler)
  /-- The process at the head of the queue gets its slice, or the run is over. -/
  | between (s : Scheduler)
  /-- The machine of process `p` does a dispatch. -/
  | running (p : Pid) (m : Machine) (s : Scheduler)
  /-- The slice of process `p` is over: it is put back, parked or taken out of the table. -/
  | leaving (p : Pid) (m : Machine) (s : Scheduler)
  /-- Process `p` is out of the table, and a watcher is told. -/
  | telling (p : Pid) (reason : Value) (watcher : Pid) (s : Scheduler)
  /-- The watchers of process `p` are told, and those go on who wait for its end. -/
  | releasing (p : Pid) (s : Scheduler)

/-- In the order in which things are done. -/
abbrev Scenes := List Scene

namespace Scene

def state : Scene → Scheduler
  | asked _ s | between s | running _ _ s | leaving _ _ s | telling _ _ _ s | releasing _ s => s

def view : Scene → View
  | asked _ s | between s | telling _ _ _ s | releasing _ s => ⟨s, none⟩
  | running p m s | leaving p m s => ⟨s, some (p, m)⟩

/-- The message that is sent next: by a request, by a program, or to a watcher. -/
def letter? : Scene → Option Letter
  | asked (.send receiver msg) _ => some ⟨Pid.nil, receiver, msg.copy⟩
  | running p m s => (m.calling? s.machine.table).bind fun (primitive, args) =>
    s.letterOf? p primitive args
  | telling p reason watcher _ => some ⟨p, watcher, exitMessage p reason⟩
  | _ => none

end Scene

/-! ### What is seen of a process -/

/-- A message to a process that is live, with its sender. -/
def delivered (s : Scheduler) (p : Pid) : Option Letter → List (Pid × Value)
  | some l => if l.receiver = p ∧ p ∈ s.procs then [(l.sender, l.msg)] else []
  | none => []

/-- One for a message to a process that is gone. -/
def astray (s : Scheduler) : Option Letter → Nat
  | some l => if l.receiver ∈ s.retired then 1 else 0
  | none => 0

def mailOf (s : Scheduler) (p : Pid) : List Value :=
  ((s.procs[p]?).map (·.mailbox.toList)).getD []

namespace View

/-- The message that a process got from one view to the next: it awaited one, and now returns it. -/
def gained (p : Pid) (v w : View) : List Value :=
  match v.machine? p, w.machine? p with
  | some m, some m' => (m.gained? v.state.machine.table m').toList
  | _, _ => []

/-- The mail of a process that leaves the table from one view to the next. -/
def forfeited (p : Pid) (v w : View) : List Value :=
  if p ∈ v.state.procs ∧ p ∉ w.state.procs then v.state.mailOf p else []

end View

namespace Scenes

/-- The messages sent to a process while it was live, with their senders. -/
def addressed (p : Pid) (run : Scenes) : List (Pid × Value) :=
  run.flatMap fun a => delivered a.state p a.letter?

/-- The messages that `(wait)` answered a process, or that its machine was handed when it was parked
or as it was to be parked. -/
def obtained (p : Pid) : Scenes → List Value
  | a :: b :: rest => a.view.gained p b.view ++ obtained p (b :: rest)
  | _ => []

/-- The mail that a process left unread at its end. -/
def forfeited (p : Pid) : Scenes → List Value
  | a :: b :: rest => a.view.forfeited p b.view ++ forfeited p (b :: rest)
  | _ => []

/-- How many messages were sent to processes that were gone. -/
def strays : Scenes → Nat
  | [] => 0
  | a :: rest => astray a.state a.letter? + strays rest

end Scenes

/-! ### The scenes of a run -/

/-- The dispatches of a slice, and its end. -/
def dispatches (cfg : Machine.Config) (p : Pid) :
    (fuel budget : Nat) → Machine → Scheduler → Scenes
  | 0, _, m, s => [.leaving p m s]
  | fuel + 1, budget, m, s =>
    if budget = 0 || m.halted?.isSome then [.leaving p m s]
    else match m.next? cfg (world p) s with
      | none => [.leaving p m s]
      | some d => .running p m s ::
        dispatches cfg p fuel (budget - 1 - d.charge) (m.after d) d.state

/-- The watchers of a process are told of its end one after the other. -/
def tellings (p : Pid) (reason : Value) : List Pid → Scheduler → Scenes
  | [], s => [.releasing p s]
  | w :: others, s => .telling p reason w s :: tellings p reason others (s.notify p reason w)

/-- What is done when the machine of a process is out of its slice. -/
def endScenes (p : Pid) (r : Progress Scheduler) : Scenes :=
  match r.status, r.state.procs[p]? with
  | .yielded, _ | .blocked, _ | _, none => []
  | _, some q =>
    let exit := Exit.ofMachine r.machine
    tellings p exit.reason q.watchers
      (((r.state.tick.recordExit p exit.reason).bury p q exit).logExit p q exit)

def stepScenes (s : Scheduler) : Scenes :=
  if s.stopped then []
  else match s.ready.pop? with
    | none => []
    | some (p, rest) => match s.procs[p]? with
      | none => []
      | some q => .between s ::
        (dispatches s.machine p s.slice s.slice q.machine (s.begin p rest) ++
          endScenes p (s.runFrom p rest q))

def untilScenes (halt : Scheduler → Bool) : (most : Nat) → Scheduler → Scenes
  | 0, _ => []
  | most + 1, s =>
    if halt s then []
    else match s.step? with
      | none => []
      | some (_, s') => s.stepScenes ++ untilScenes halt most s'

def serveScenes (s : Scheduler) (request : Request) : Scenes :=
  .asked request s :: match request with
    | .exec exprs env most => match s.spawn exprs env with
      | .ok (p, s) => untilScenes (fun s => s.doneGates[p]? == some .closed) most s
      | .error _ => []
    | .slice => s.stepScenes
    | _ => []

/-- All that is done in a run, and what it leaves. -/
def scenes (s : Scheduler) : List Request → Scenes
  | [] => [.between s]
  | request :: later => s.serveScenes request ++ (s.serve request).scenes later

end Scheduler
end ProcLisp
