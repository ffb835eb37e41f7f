import ProcLisp.Machine.Basic

/-!
# One dispatch

A dispatch evaluates one expression as far as its first part, or hands a value to the innermost
frame. A failure leaves environment and value as they were before it. A machine prints and, as part
of a process, sends, receives, forks and watches. These acts change a state of a type of their own:
a transcript, a scripted host, or a whole scheduler.
-/

namespace ProcLisp

/-- How a process came about. -/
inductive Birth where
  | fork | spawn
  deriving DecidableEq, Repr

/-- The process that a machine acts for. A refused act leaves the state as it was. -/
structure Host (σ : Type) where
  self : Pid
  send : Pid → Value → σ → Except Trouble σ
  /-- The next message, if there is one. -/
  receive : σ → Option (Value × σ)
  /-- Makes a machine a process of its own. -/
  fork : Birth → Machine → σ → Except Trouble (Pid × σ)
  watch : Pid → σ → Except Trouble σ

structure World (σ : Type) where
  print : Bytes → σ → σ
  host : Option (Host σ) := none

/-- What was printed, newest first. -/
abbrev Transcript := List Bytes

def Transcript.text (t : Transcript) : Bytes := t.reverse.flatten

/-- Output and no process. -/
def World.solitary : World Transcript := { print := fun text t => text :: t }

/-- The result of a dispatch: the state after it, the reductions charged on top of the one that
every dispatch costs, and the machine or why it fails. -/
structure Dispatch (σ : Type) where
  state : σ
  charge : Nat := 0
  machine : Except Failure Machine

namespace Machine

variable {σ : Type}

/-- A dispatch that changes nothing outside the machine. -/
def quiet (s : σ) (machine : Except Failure Machine) : Dispatch σ := { state := s, machine }

/-- The machine of a process that runs a function without parameters. -/
def ofFunction (cfg : Config) (body : Value) (captured env : Env) : Except Failure Machine :=
  let m : Machine := { env := env, stack := Stack.empty.push .terminate }
  m.enter cfg [] body captured [] env

def perform (cfg : Config) (host : Host σ) (m : Machine) (p : Primitive) (args : List Value)
    (env : Env) (s : σ) : Dispatch σ :=
  match p, args with
  | .pid, [] => quiet s (.ok (m.ret (.pid host.self) env))
  | .fork, [] =>
    match host.fork .fork (m.ret (.bool true) env) s with
    | .ok (_, s) => quiet s (.ok (m.ret (.bool false) env))
    | .error e => quiet s (.error e.toFailure)
  | .spawn, [.lambda tag params body captured] =>
    if params.length ≠ 0 then
      quiet s (.error (.arityMismatch (.lambda tag params body captured) params.length 0))
    else match ofFunction cfg body captured env with
      | .error f => quiet s (.error f)
      | .ok child => match host.fork .spawn child s with
        | .ok (pid, s) => quiet s (.ok (m.ret (.pid pid) env))
        | .error e => quiet s (.error e.toFailure)
  | .spawn, [v] => quiet s (.error (.notFunction v))
  | .send, [.pid receiver, msg] =>
    match host.send receiver msg.copy s with
    | .ok s => quiet s (.ok (m.ret (.pid receiver) env))
    | .error e => quiet s (.error e.toFailure)
  | .send, [v, _] => quiet s (.error (.typeMismatch Kind.pid v))
  | .wait, [] =>
    match host.receive s with
    | some (msg, s) => quiet s (.ok (m.ret msg env))
    | none => quiet s (.ok { m with control := .waiting, env := env })
  | .watch, [.pid target] =>
    match host.watch target s with
    | .ok s => quiet s (.ok (m.ret (.pid target) env))
    | .error e => quiet s (.error e.toFailure)
  | .watch, [v] => quiet s (.error (.typeMismatch Kind.pid v))
  | .terminate, [reason] => quiet s (.ok (m.exit reason))
  | p, args => quiet s (.error (.arityMismatch (.sym p.name) p.arity args.length))

/-- Hands evaluated arguments to their target. -/
def dispatch (cfg : Config) (world : World σ) (m : Machine) (target : Target) (args : List Value)
    (env : Env) (s : σ) : Dispatch σ :=
  match target with
  | .list => quiet s (.ok (m.ret (.list args) env))
  | .syscall name =>
    match cfg.table.lookup name args.length with
    | .error f => quiet s (.error f)
    | .ok sc =>
      let (printed, result) := sc.call args
      { state := if printed.isEmpty then s else world.print printed s
        charge := sc.cost.toNatClampNeg
        machine := result.map (m.ret · env) }
  | .primitive p =>
    match world.host with
    | none => quiet s (.error (.notInProcess p.name))
    | some host => m.perform cfg host p args env s
  | .apply params body captured => quiet s (m.enter cfg params body captured args env)

/-- Evaluates arguments from left to right, then dispatches on them. -/
def evalArgs (cfg : Config) (world : World σ) (m : Machine) (target : Target) (args : List Value)
    (env : Env) (s : σ) : Dispatch σ :=
  match args with
  | [] => m.dispatch cfg world target [] env s
  | e :: pending => quiet s ((m.push cfg (.arguments target [] pending)).map (·.eval e env))

/-- Makes a lambda with a tag of its own. -/
def close (m : Machine) (params : List Bytes) (body : Value) (env : Env) : Machine :=
  { m with supply.next := m.supply.next + 1 }.ret
    (.lambda ⟨m.supply.origin, m.supply.next⟩ params body env) env

def evalForm (cfg : Config) (world : World σ) (m : Machine) (form : Form) (env : Env) (s : σ) :
    Dispatch σ :=
  match form with
  | .value v => quiet s (.ok (m.ret v env))
  | .lookup name => quiet s ((env.lookup name).map (m.ret · env))
  | .branch test yes no => quiet s ((m.push cfg (.branch yes no)).map (·.eval test env))
  | .sequence first rest => quiet s (m.evalSequence cfg first rest env)
  | .define name expr => quiet s ((m.push cfg (.define name)).map (·.eval expr env))
  | .letIn bindings first rest => quiet s <|
    match m.pushRestore cfg env with
    | .error f => .error f
    | .ok m => match bindings with
      | [] => m.evalSequence cfg first rest env
      | (name, expr) :: others =>
        (m.push cfg (.binding name others first rest)).map (·.eval expr env)
  | .lambda params body => quiet s (.ok (m.close params body env))
  | .cond [] => quiet s (.ok (m.ret incompleteCond env))
  | .cond ((test, body) :: others) =>
    quiet s ((m.push cfg (.clause body others)).map (·.eval test env))
  | .list items => m.evalArgs cfg world .list items env s
  | .primitive p args => m.evalArgs cfg world (.primitive p) args env s
  | .syscall name args => m.evalArgs cfg world (.syscall name) args env s
  | .apply head args => quiet s ((m.push cfg (.callee args)).map (·.eval head env))

/-- Hands the value `v` to a frame that was taken off the stack. -/
def resumeFrame (cfg : Config) (world : World σ) (m : Machine) (k : Frame) (v : Value) (env : Env)
    (s : σ) : Dispatch σ :=
  match k with
  | .branch yes no => quiet s (.ok (m.eval (if v.truthy then yes else no) env))
  | .sequence first rest => quiet s (m.evalSequence cfg first rest env)
  | .define name => quiet s (.ok (m.ret v (env.bind name v)))
  | .binding name [] first rest => quiet s (m.evalSequence cfg first rest (env.bind name v))
  | .binding name ((next, expr) :: others) first rest =>
    quiet s ((m.push cfg (.binding next others first rest)).map (·.eval expr (env.bind name v)))
  | .restore saved => quiet s (.ok (m.ret v saved))
  | .clause body others =>
    if v.truthy then quiet s (.ok (m.eval body env))
    else match others with
      | [] => quiet s (.ok (m.ret incompleteCond env))
      | (test, body) :: others =>
        quiet s ((m.push cfg (.clause body others)).map (·.eval test env))
  | .arguments target done [] => m.dispatch cfg world target (v :: done).reverse env s
  | .arguments target done (e :: pending) =>
    quiet s ((m.push cfg (.arguments target (v :: done) pending)).map (·.eval e env))
  | .callee args =>
    match v with
    | .lambda _ params body captured =>
      if args.length = params.length then
        m.evalArgs cfg world (.apply params body captured) args env s
      else quiet s (.error (.arityMismatch v params.length args.length))
    | v => quiet s (.error (.notFunction v))
  | .terminate => quiet s (.ok (m.exit normalExit))

/-- Evaluates an expression as far as its first part. -/
def evalStep (cfg : Config) (world : World σ) (m : Machine) (expr : Value) (s : σ) : Dispatch σ :=
  match Form.read cfg.table expr with
  | .error f => quiet s (.error f)
  | .ok form => m.evalForm cfg world form m.env s

/-- The dispatch that the machine has to do next, if there is one. -/
def next? (cfg : Config) (world : World σ) (m : Machine) (s : σ) : Option (Dispatch σ) :=
  match m.control with
  | .eval expr => some (m.evalStep cfg world expr s)
  | .returning => match m.stack.pop? with
    | some (k, rest) => some ({ m with stack := rest }.resumeFrame cfg world k m.val m.env s)
    | none => none
  | _ => none

/-- The machine after a dispatch, with its reductions counted. -/
def after (m : Machine) (d : Dispatch σ) : Machine :=
  let next := match d.machine with
    | .ok next => next
    | .error f => m.fail f
  { next with reductions := m.reductions + 1 + d.charge.toUInt64 }

end Machine
end ProcLisp
