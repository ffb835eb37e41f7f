import ProcLisp.Machine.Form

/-!
# The machine's state

A machine holds a whole evaluation as data: what it evaluates or returns, the current environment,
and the stack of frames that wait for a value. So it can stop after any step, wait for a message,
and be copied.
-/

namespace ProcLisp

/-- Where evaluated arguments go. -/
inductive Target where
  | list
  | syscall (name : Bytes)
  | primitive (p : Primitive)
  | apply (params : List Bytes) (body : Value) (env : Env)

/-- What is done with the value that a frame waits for. -/
inductive Frame where
  /-- The test of a conditional. -/
  | branch (yes no : Value)
  /-- A value to be dropped, before the next expressions. -/
  | sequence (first : Value) (rest : List Value)
  /-- The value of a definition. -/
  | define (name : Bytes)
  /-- The value of a local name, before the other bindings and the body. -/
  | binding (name : Bytes) (others : List (Bytes × Value)) (first : Value) (rest : List Value)
  /-- The value of a scope; the environment from before it is current again. -/
  | restore (env : Env)
  /-- The test of a clause, its body and the other clauses. -/
  | clause (body : Value) (others : List (Value × Value))
  /-- The next argument, after those done (newest first) and before those pending. -/
  | arguments (target : Target) (done pending : List Value)
  /-- The head of an application. -/
  | callee (args : List Value)
  /-- The end of a process's function. -/
  | terminate

def Frame.isRestore : Frame → Bool
  | .restore _ => true
  | _ => false

/-- Frames, innermost first, with their number. -/
structure Stack where
  frames : List Frame
  depth : Nat
  depth_eq : depth = frames.length

namespace Stack

def empty : Stack := ⟨[], 0, rfl⟩

def push (s : Stack) (k : Frame) : Stack :=
  ⟨k :: s.frames, s.depth + 1, by simp [s.depth_eq]⟩

def pop? (s : Stack) : Option (Frame × Stack) :=
  match s with
  | ⟨[], _, _⟩ => none
  | ⟨k :: rest, depth, h⟩ => some (k, ⟨rest, depth - 1, by simp [h]⟩)

end Stack

/-- How a machine that terminated came to its end. -/
inductive Ending where
  | exited (reason : Value)
  | failed (failure : Failure)

namespace Ending

def reason : Ending → Value
  | exited reason => reason
  | failed f => f.toValue

def failure? : Ending → Option Failure
  | exited _ => none
  | failed f => some f

end Ending

inductive Control where
  /-- Nothing is loaded. -/
  | idle
  | eval (expr : Value)
  /-- The current value goes to the innermost frame. -/
  | returning
  /-- For a message. -/
  | waiting
  | done
  | terminated (ending : Ending)

/-- Numbers the lambdas that a machine makes. -/
structure Supply where
  origin : Nat := 0
  next : Nat := 0
  deriving DecidableEq, Repr

structure Machine where
  control : Control := .idle
  env : Env := []
  val : Value := .nothing
  stack : Stack := .empty
  supply : Supply := {}
  /-- How many were done, in a word of 64 bits. -/
  reductions : UInt64 := 0

namespace Machine

/-- What stays the same while a machine runs. -/
structure Config where
  table : SyscallTable
  /-- The bound on the stack. -/
  maxFrames : Nat := 100000
  /-- Whether a restore frame makes another one on top of it redundant. -/
  elide : Bool := true

/-- The bound that stands for "no bound given". -/
def defaultFrames : Nat := 100000

/-- The configuration with the bound that was asked for. -/
def Config.ofBound (table : SyscallTable) (bound : Int) : Config :=
  { table, maxFrames := if bound ≤ 0 then defaultFrames else bound.toNat }

/-- What an unmatched `cond` yields. -/
def incompleteCond : Value := .sym (ascii "incomplete-cond")

/-- The reason of a process whose function returned. -/
def normalExit : Value := .sym (ascii "normal")

def ret (m : Machine) (v : Value) (env : Env) : Machine :=
  { m with control := .returning, val := v, env := env }

def eval (m : Machine) (expr : Value) (env : Env) : Machine :=
  { m with control := .eval expr, env := env }

def exit (m : Machine) (reason : Value) : Machine :=
  { m with control := .terminated (.exited reason), stack := .empty }

def fail (m : Machine) (f : Failure) : Machine :=
  { m with control := .terminated (.failed f), stack := .empty }

def push (m : Machine) (cfg : Config) (k : Frame) : Except Failure Machine :=
  if m.stack.depth < cfg.maxFrames then .ok { m with stack := m.stack.push k }
  else .error (.stackOverflow cfg.maxFrames)

/-- Arranges for `env` to be current again after a scope. A restore frame directly underneath makes
this one redundant, so that calls in tail position do not grow the stack. -/
def pushRestore (m : Machine) (cfg : Config) (env : Env) : Except Failure Machine :=
  match m.stack.frames with
  | .restore _ :: _ =>
    if cfg.elide then .ok m else m.push cfg (.restore env)
  | _ => m.push cfg (.restore env)

/-- Evaluates expressions in order; the last one needs no frame. -/
def evalSequence (m : Machine) (cfg : Config) (first : Value) (rest : List Value) (env : Env) :
    Except Failure Machine :=
  match rest with
  | [] => .ok (m.eval first env)
  | next :: others => (m.push cfg (.sequence next others)).map (·.eval first env)

/-- Evaluates a body in the caller's environment overlaid with the captured one and the parameters.
-/
def enter (m : Machine) (cfg : Config) (params : List Bytes) (body : Value) (captured : Env)
    (args : List Value) (env : Env) : Except Failure Machine :=
  (m.pushRestore cfg env).map (·.eval body ((env.merge captured).bindAll params args))

/-- A machine that evaluates `exprs` in order from `env`; an empty program yields the empty list.
The reductions and the last value are kept. -/
def load (m : Machine) (exprs : List Value) (env : Env) : Machine :=
  match exprs with
  | [] => { m with control := .returning, val := .empty, env := env, stack := .empty }
  | [e] => { m with control := .eval e, env := env, stack := .empty }
  | e :: next :: others =>
    { m with control := .eval e, env := env, stack := Stack.empty.push (.sequence next others) }

/-- The machine as the process `p`: its lambdas are told from those of all others. -/
def adopt (m : Machine) (p : Pid) : Machine := { m with supply := ⟨p.val, 0⟩ }

/-- Why the machine terminated, if it did. -/
def ending? (m : Machine) : Option Ending :=
  match m.control with
  | .terminated e => some e
  | _ => none

end Machine
end ProcLisp
