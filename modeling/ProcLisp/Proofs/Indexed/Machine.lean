import ProcLisp.Machine.Run
import ProcLisp.Proofs.Indexed.Syscalls

/-!
# A machine of positions

This machine keeps whole forms in its frames, with the position that it is at, and reads what it
needs when it needs it, so that a wrong position or a missing argument is a fault. Its frames show
what those of the machine proper hold, which keeps only what is still to do.
-/

namespace ProcLisp.Indexed

open ProcLisp.Machine (incompleteCond normalExit)

inductive Frame where
  | branch (yes no : Value)
  | sequence (rest : List Value)
  | define (name : Bytes)
  /-- The binding at `index` gets a value. -/
  | binding (bindings : List (Bytes × Value)) (index : Nat) (body : List Value)
  | restore (env : Env)
  /-- Predicates and bodies in turn; the predicate at `index` is evaluated. -/
  | clause (clauses : List Value) (index : Nat)
  /-- All arguments, and the values of the first ones, in their order. -/
  | arguments (target : Target) (pending done : List Value)
  /-- The whole application, its head included. -/
  | callee (form : List Value)
  | terminate

/-- Whether a target gets as many arguments as it takes. A syscall looks at their number itself. -/
def Takes : Target → Nat → Prop
  | .apply params _ _, n => n = params.length
  | .primitive p, n => n = p.arity
  | _, _ => True

/-- Predicates and bodies in turn, as pairs. -/
def pairs : List Value → List (Value × Value)
  | test :: body :: rest => (test, body) :: pairs rest
  | _ => []

namespace Frame

/-- Positions are those of items, and no list of expressions is empty. -/
def InRange : Frame → Prop
  | .sequence rest => rest ≠ []
  | .binding bindings index body => index < bindings.length ∧ body ≠ []
  | .clause clauses index => clauses.length % 2 = 0 ∧ index % 2 = 0 ∧ index < clauses.length
  | .arguments target pending done => done.length < pending.length ∧ Takes target pending.length
  | .callee form => form ≠ []
  | _ => True

/-- What is still to do. -/
def view : Frame → ProcLisp.Frame
  | .branch yes no => .branch yes no
  | .sequence rest => .sequence (rest.headD .nothing) rest.tail
  | .define name => .define name
  | .binding bindings index body =>
    .binding (bindings.getD index ([], .nothing)).1 (bindings.drop (index + 1))
      (body.headD .nothing) body.tail
  | .restore env => .restore env
  | .clause clauses index =>
    .clause (clauses.getD (index + 1) .nothing) (pairs (clauses.drop (index + 2)))
  | .arguments target pending done =>
    .arguments target done.reverse (pending.drop (done.length + 1))
  | .callee form => .callee form.tail
  | .terminate => .terminate

theorem view_binding {bindings : List (Bytes × Value)} {index : Nat}
    (inside : index < bindings.length) (first : Value) (rest : List Value) :
    (binding bindings index (first :: rest)).view =
      .binding bindings[index].1 (bindings.drop (index + 1)) first rest := by
  rw [view, List.getD_eq_getElem?_getD, List.getElem?_eq_getElem inside]
  rfl

theorem view_clause {clauses : List Value} {index : Nat} (inside : index + 1 < clauses.length) :
    (clause clauses index).view =
      .clause clauses[index + 1] (pairs (clauses.drop (index + 2))) := by
  rw [view, List.getD_eq_getElem?_getD, List.getElem?_eq_getElem inside]
  rfl

end Frame

structure Machine where
  control : Control := .idle
  env : Env := []
  val : Value := .nothing
  /-- Innermost first. -/
  frames : List Frame := []
  supply : Supply := {}
  reductions : UInt64 := 0

/-- The function that arguments are handed to. -/
inductive Call where
  | lambda (params : List Bytes) (args : List Value)
  | primitive (p : Primitive) (args : List Value)
  | syscall (sc : Syscall) (args : List Value)

/-- Exactly as many arguments as the function takes, or as many as a syscall admits. -/
def Call.Fits : Call → Prop
  | .lambda params args => args.length = params.length
  | .primitive p args => args.length = p.arity
  | .syscall sc args => sc.admits args.length

/-- The result of a dispatch, with the calls that it makes and the machine that it hands to the
host as a process of its own. -/
structure Dispatch (σ : Type) where
  state : σ
  charge : Nat := 0
  machine : Except Failure Machine
  calls : List Call := []
  child : Option Machine := none

def Dispatch.calling {σ : Type} (d : Dispatch σ) (call : Call) : Dispatch σ :=
  { d with calls := call :: d.calls }

/-- A configuration with the bodies of the syscalls in its table. -/
structure Config extends ProcLisp.Machine.Config where
  body : Bytes → Body

/-- The standard table and a bound on the stack. -/
def Config.standard (sink : Syscall.Sink) (bound : Int) : Config :=
  { ProcLisp.Machine.Config.ofBound (.standard sink) bound with body := Indexed.body sink }

/-! ### Reading forms -/

/-- One binding of a list of pairs. -/
def readPair (whole item : Value) : Checked (Except Failure (Bytes × Value)) :=
  match item with
  | .list pair =>
    if pair.length ≠ 2 then .ok (.error (.unevenBindings whole))
    else do
      let name ← read pair 0
      match name with
      | .sym name => do
        let expr ← read pair 1
        .ok (.ok (name, expr))
      | v => .ok (.error (.nonSymbolName v))
  | _ => .ok (.error (.unevenBindings whole))

def readPairs (whole : Value) : List Value → Checked (Except Failure (List (Bytes × Value)))
  | [] => .ok (.ok [])
  | item :: rest => do
    match ← readPair whole item with
    | .error f => .ok (.error f)
    | .ok b => do
      let later ← readPairs whole rest
      .ok (later.map (b :: ·))

/-- Names and expressions in turn, from position `i` on. -/
def readFlat (items : List Value) (i : Nat) : Checked (Except Failure (List (Bytes × Value))) :=
  if i < items.length then do
    let name ← read items i
    match name with
    | .sym name => do
      let expr ← read items (i + 1)
      let later ← readFlat items (i + 2)
      .ok (later.map ((name, expr) :: ·))
    | v => .ok (.error (.nonSymbolName v))
  else .ok (.ok [])
termination_by items.length - i

def readBindings (whole : Value) : Checked (Except Failure (List (Bytes × Value))) :=
  match whole with
  | .list items =>
    if items.length = 0 then .ok (.ok [])
    else do
      let first ← read items 0
      if first.kind = Kind.list then readPairs whole items
      else if items.length % 2 ≠ 0 then .ok (.error (.unevenBindings whole))
      else readFlat items 0
  | _ => .ok (.error (.unevenBindings whole))

/-- The body of a lambda: its only expression, or all of them as one that evaluates them in order.
-/
def readBody (form : List Value) : Checked Value :=
  if 3 < form.length then do
    let exprs ← slice form 2
    .ok (.list (.sym (ascii "do") :: exprs))
  else read form 2

/-- Binds parameters to the arguments from position `i` on. -/
def bindParams (scope : Env) (args : List Value) : (params : List Bytes) → (i : Nat) → Checked Env
  | [], _ => .ok scope
  | p :: ps, i => do
    let v ← read args i
    bindParams (scope.bind p v) args ps (i + 1)

/-! ### Dispatches -/

namespace Machine

variable {σ : Type}

def InRange (m : Machine) : Prop := ∀ k ∈ m.frames, k.InRange

def stackView (frames : List Frame) : Stack := ⟨frames.map Frame.view, frames.length, by simp⟩

def view (m : Machine) : ProcLisp.Machine :=
  { control := m.control, env := m.env, val := m.val, stack := stackView m.frames,
    supply := m.supply, reductions := m.reductions }

def quiet (s : σ) (machine : Except Failure Machine) : Dispatch σ := { state := s, machine }

def ret (m : Machine) (v : Value) (env : Env) : Machine :=
  { m with control := .returning, val := v, env := env }

def eval (m : Machine) (expr : Value) (env : Env) : Machine :=
  { m with control := .eval expr, env := env }

def exit (m : Machine) (reason : Value) : Machine :=
  { m with control := .terminated (.exited reason), frames := [] }

def fail (m : Machine) (f : Failure) : Machine :=
  { m with control := .terminated (.failed f), frames := [] }

def push (m : Machine) (cfg : Config) (k : Frame) : Except Failure Machine :=
  if m.frames.length < cfg.maxFrames then .ok { m with frames := k :: m.frames }
  else .error (.stackOverflow cfg.maxFrames)

def pop (m : Machine) : Checked (Frame × Machine) := do
  let k ← read m.frames 0
  let rest ← slice m.frames 1
  .ok (k, { m with frames := rest })

def pushRestore (m : Machine) (cfg : Config) (env : Env) : Except Failure Machine :=
  match m.frames with
  | .restore _ :: _ => if cfg.elide then .ok m else m.push cfg (.restore env)
  | _ => m.push cfg (.restore env)

/-- Evaluates expressions in order; the last one needs no frame. -/
def evalSequence (m : Machine) (cfg : Config) (exprs : List Value) (env : Env) :
    Checked (Except Failure Machine) := do
  let pushed ←
    if 1 < exprs.length then do
      let rest ← slice exprs 1
      .ok (m.push cfg (.sequence rest))
    else .ok (.ok m)
  let first ← read exprs 0
  .ok (pushed.map (·.eval first env))

/-- Evaluates a body in a scope that binds the parameters to arguments. -/
def apply (m : Machine) (cfg : Config) (params : List Bytes) (body : Value) (captured : Env)
    (args : List Value) (env : Env) : Checked (Except Failure Machine) := do
  let scope ← bindParams (env.merge captured) args params 0
  .ok ((m.pushRestore cfg env).map (·.eval body scope))

def ofFunction (cfg : Config) (params : List Bytes) (body : Value) (captured env : Env) :
    Checked (Except Failure Machine) :=
  let m : Machine := { env := env, frames := [.terminate] }
  m.apply cfg params body captured [] env

/-- An act that only changes the state. -/
def answered (m : Machine) (v : Value) (env : Env) (s : σ) : Except Trouble σ → Dispatch σ
  | .ok s => quiet s (.ok (m.ret v env))
  | .error e => quiet s (.error e.toFailure)

/-- Hands a child to the host, and answers what its pid is turned to. -/
def handOver (host : Host σ) (birth : Birth) (m child : Machine) (answer : Pid → Value) (env : Env)
    (s : σ) : Dispatch σ :=
  let d := match host.fork birth child.view s with
    | .ok (pid, s) => quiet s (.ok (m.ret (answer pid) env))
    | .error e => quiet s (.error e.toFailure)
  { d with child := some child }

/-- Hands a new process to the host, if its function could be entered. -/
def spawned (host : Host σ) (m : Machine) (env : Env) (s : σ) : Except Failure Machine → Dispatch σ
  | .error f => quiet s (.error f)
  | .ok child => m.handOver host .spawn child .pid env s

def perform (cfg : Config) (host : Host σ) (m : Machine) (p : Primitive) (args : List Value)
    (env : Env) (s : σ) : Checked (Dispatch σ) :=
  match p with
  | .pid => .ok (quiet s (.ok (m.ret (.pid host.self) env)))
  | .fork => .ok (m.handOver host .fork (m.ret (.bool true) env) (fun _ => .bool false) env s)
  | .spawn => do
    let f ← read args 0
    match f with
    | .lambda _ params body captured =>
      if params.length ≠ 0 then .ok (quiet s (.error (.arityMismatch f params.length 0)))
      else do
        let child ← ofFunction cfg params body captured env
        .ok ((m.spawned host env s child).calling (.lambda params []))
    | v => .ok (quiet s (.error (.notFunction v)))
  | .send => do
    let receiver ← read args 0
    match receiver with
    | .pid p => do
      let msg ← read args 1
      .ok (m.answered (.pid p) env s (host.send p msg.copy s))
    | v => .ok (quiet s (.error (.typeMismatch Kind.pid v)))
  | .wait => match host.receive s with
    | some (msg, s) => .ok (quiet s (.ok (m.ret msg env)))
    | none => .ok (quiet s (.ok { m with control := .waiting, env := env }))
  | .watch => do
    let target ← read args 0
    match target with
    | .pid p => .ok (m.answered (.pid p) env s (host.watch p s))
    | v => .ok (quiet s (.error (.typeMismatch Kind.pid v)))
  | .terminate => do
    let reason ← read args 0
    .ok (quiet s (.ok (m.exit reason)))

/-- Hands evaluated arguments to their target. -/
def dispatch (cfg : Config) (world : World σ) (m : Machine) (target : Target) (args : List Value)
    (env : Env) (s : σ) : Checked (Dispatch σ) :=
  match target with
  | .list => .ok (quiet s (.ok (m.ret (.list args) env)))
  | .syscall name =>
    match cfg.table.lookup name args.length with
    | .error f => .ok (quiet s (.error f))
    | .ok sc => do
      let reply ← cfg.body name args
      let (printed, result) := Syscall.call { sc with run := fun _ => reply } args
      .ok { state := if printed.isEmpty then s else world.print printed s
            charge := sc.cost.toNatClampNeg
            machine := result.map (m.ret · env)
            calls := [.syscall sc args] }
  | .primitive p => (·.calling (.primitive p args)) <$> match world.host with
    | none => .ok (quiet s (.error (.notInProcess p.name)))
    | some host => m.perform cfg host p args env s
  | .apply params body captured => do
    let next ← m.apply cfg params body captured args env
    .ok ((quiet s next).calling (.lambda params args))

/-- Evaluates arguments from left to right, then dispatches on them. -/
def evalArgs (cfg : Config) (world : World σ) (m : Machine) (target : Target) (args : List Value)
    (env : Env) (s : σ) : Checked (Dispatch σ) :=
  if args.length = 0 then m.dispatch cfg world target [] env s
  else do
    let first ← read args 0
    .ok (quiet s ((m.push cfg (.arguments target args [])).map (·.eval first env)))

/-- Makes a lambda with a tag of its own. -/
def close (m : Machine) (params : List Bytes) (body : Value) (env : Env) : Machine :=
  { m with supply.next := m.supply.next + 1 }.ret
    (.lambda ⟨m.supply.origin, m.supply.next⟩ params body env) env

def malformed (form : List Value) (s : σ) : Dispatch σ := quiet s (.error (.malformed form))

/-- Evaluates bindings and a body, the third item of the form and those after it. -/
def evalLet (cfg : Config) (m : Machine) (form : List Value) (bindings : List (Bytes × Value))
    (env : Env) : Checked (Except Failure Machine) :=
  match m.pushRestore cfg env with
  | .error f => .ok (.error f)
  | .ok m => do
    let body ← slice form 2
    if bindings.length = 0 then m.evalSequence cfg body env
    else do
      let first ← read bindings 0
      .ok ((m.push cfg (.binding bindings 0 body)).map (·.eval first.2 env))

/-- Evaluates a special form, given with its word. -/
def evalSpecial (cfg : Config) (world : World σ) (m : Machine) (form : List Value) (env : Env)
    (s : σ) : SpecialForm → Checked (Dispatch σ)
  | .quote =>
    if form.length ≠ 2 then .ok (malformed form s)
    else do
      let v ← read form 1
      .ok (quiet s (.ok (m.ret v env)))
  | .branch =>
    if form.length ≠ 4 then .ok (malformed form s)
    else do
      let yes ← read form 2
      let no ← read form 3
      let test ← read form 1
      .ok (quiet s ((m.push cfg (.branch yes no)).map (·.eval test env)))
  | .sequence =>
    if form.length < 2 then .ok (malformed form s)
    else do
      let exprs ← slice form 1
      quiet s <$> m.evalSequence cfg exprs env
  | .define =>
    if form.length ≠ 3 then .ok (malformed form s)
    else do
      let name ← read form 1
      match name with
      | .sym name =>
        if isReserved name then .ok (malformed form s)
        else do
          let expr ← read form 2
          .ok (quiet s ((m.push cfg (.define name)).map (·.eval expr env)))
      | v => .ok (quiet s (.error (.nonSymbolName v)))
  | .letIn =>
    if form.length < 3 then .ok (malformed form s)
    else do
      let written ← read form 1
      match ← readBindings written with
      | .error f => .ok (quiet s (.error f))
      | .ok bindings =>
        if bindings.any fun b => isReserved b.1 then .ok (malformed form s)
        else quiet s <$> m.evalLet cfg form bindings env
  | .lambda =>
    if form.length < 3 then .ok (malformed form s)
    else do
      let written ← read form 1
      match written with
      | .list params => match Form.readParams form [] params with
        | .error f => .ok (quiet s (.error f))
        | .ok params => do
          let body ← readBody form
          .ok (quiet s (.ok (m.close params body env)))
      | _ => .ok (malformed form s)
  | .cond => do
    let clauses ← slice form 1
    if clauses.length % 2 ≠ 0 then .ok (malformed form s)
    else if clauses.length = 0 then .ok (quiet s (.ok (m.ret incompleteCond env)))
    else do
      let test ← read clauses 0
      .ok (quiet s ((m.push cfg (.clause clauses 0)).map (·.eval test env)))
  | .list => do
    let items ← slice form 1
    m.evalArgs cfg world .list items env s

/-- Evaluates the head of an application. -/
def evalHead (cfg : Config) (m : Machine) (form : List Value) (env : Env) (s : σ) :
    Checked (Dispatch σ) := do
  let head ← read form 0
  .ok (quiet s ((m.push cfg (.callee form)).map (·.eval head env)))

/-- Evaluates a list that is not empty. -/
def evalList (cfg : Config) (world : World σ) (m : Machine) (form : List Value) (env : Env)
    (s : σ) : Checked (Dispatch σ) := do
  let head ← read form 0
  match head with
  | .sym name => match SpecialForm.ofName? name with
    | some sf => m.evalSpecial cfg world form env s sf
    | none => match Primitive.ofName? name with
      | some p =>
        if form.length - 1 ≠ p.arity then
          .ok (quiet s (.error (.arityMismatch head p.arity (form.length - 1))))
        else do
          let args ← slice form 1
          m.evalArgs cfg world (.primitive p) args env s
      | none =>
        if cfg.table.has name then do
          let args ← slice form 1
          m.evalArgs cfg world (.syscall name) args env s
        else m.evalHead cfg form env s
  | _ => m.evalHead cfg form env s

/-- Evaluates an expression as far as its first part. -/
def step (cfg : Config) (world : World σ) (m : Machine) (expr : Value) (env : Env) (s : σ) :
    Checked (Dispatch σ) :=
  match expr with
  | .sym name => .ok (quiet s ((env.lookup name).map (m.ret · env)))
  | .list form =>
    if form.length = 0 then .ok (quiet s (.ok (m.ret .empty env)))
    else m.evalList cfg world form env s
  | .bare k =>
    if k = Kind.symbol then .ok (quiet s ((env.lookup []).map (m.ret · env)))
    else if k = Kind.list then .ok (quiet s (.ok (m.ret .empty env)))
    else .ok (quiet s (.ok (m.ret (.bare k) env)))
  | v => .ok (quiet s (.ok (m.ret v env)))

/-- Hands the value `v` to a frame that was taken off the stack. -/
def resumeFrame (cfg : Config) (world : World σ) (m : Machine) (k : Frame) (v : Value) (env : Env)
    (s : σ) : Checked (Dispatch σ) :=
  match k with
  | .branch yes no => .ok (quiet s (.ok (m.eval (if v.truthy then yes else no) env)))
  | .sequence rest => quiet s <$> m.evalSequence cfg rest env
  | .define name => .ok (quiet s (.ok (m.ret v (env.bind name v))))
  | .binding bindings index body => do
    let bound ← read bindings index
    let inner := env.bind bound.1 v
    if index + 1 < bindings.length then do
      let next ← read bindings (index + 1)
      .ok (quiet s ((m.push cfg (.binding bindings (index + 1) body)).map (·.eval next.2 inner)))
    else quiet s <$> m.evalSequence cfg body inner
  | .restore saved => .ok (quiet s (.ok (m.ret v saved)))
  | .clause clauses index =>
    if v.truthy then do
      let body ← read clauses (index + 1)
      .ok (quiet s (.ok (m.eval body env)))
    else if clauses.length ≤ index + 2 then .ok (quiet s (.ok (m.ret incompleteCond env)))
    else do
      let test ← read clauses (index + 2)
      .ok (quiet s ((m.push cfg (.clause clauses (index + 2))).map (·.eval test env)))
  | .arguments target pending done =>
    let done := done ++ [v]
    if done.length < pending.length then do
      let expr ← read pending done.length
      .ok (quiet s ((m.push cfg (.arguments target pending done)).map (·.eval expr env)))
    else m.dispatch cfg world target done env s
  | .callee form =>
    match v with
    | .lambda _ params body captured => do
      let args ← slice form 1
      if args.length ≠ params.length then
        .ok (quiet s (.error (.arityMismatch v params.length args.length)))
      else m.evalArgs cfg world (.apply params body captured) args env s
    | v => .ok (quiet s (.error (.notFunction v)))
  | .terminate => .ok (quiet s (.ok (m.exit normalExit)))

/-- The dispatch that the machine has to do next, if there is one. -/
def next? (cfg : Config) (world : World σ) (m : Machine) (s : σ) :
    Checked (Option (Dispatch σ)) :=
  match m.control with
  | .eval expr => some <$> m.step cfg world expr m.env s
  | .returning =>
    if m.frames.length = 0 then .ok none
    else do
      let (k, rest) ← m.pop
      some <$> rest.resumeFrame cfg world k m.val m.env s
  | _ => .ok none

/-- The machine after a dispatch, with its reductions counted. -/
def after (m : Machine) (d : Dispatch σ) : Machine :=
  let next := match d.machine with
    | .ok next => next
    | .error f => m.fail f
  { next with reductions := m.reductions + 1 + d.charge.toUInt64 }

/-- A machine that evaluates `exprs` in order from `env`. -/
def load (m : Machine) (cfg : Config) (exprs : List Value) (env : Env) : Checked Machine :=
  let fresh := { m with env := env, frames := [] }
  if exprs.length = 0 then .ok (fresh.ret .empty env)
  else do
    match ← fresh.evalSequence cfg exprs env with
    | .ok next => .ok next
    | .error f => .ok (fresh.fail f)

def adopt (m : Machine) (p : Pid) : Machine := { m with supply := ⟨p.val, 0⟩ }

/-- Hands a message to a machine that waits for one. -/
def resume (m : Machine) (msg : Value) : Except MachineError Machine :=
  match m.control with
  | .waiting => .ok { m with control := .returning, val := msg }
  | _ => .error .notWaiting

end Machine
end ProcLisp.Indexed
