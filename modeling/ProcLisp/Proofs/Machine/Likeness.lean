import ProcLisp.Machine.Eval
import ProcLisp.Proofs.Machine.Code
import ProcLisp.Proofs.Machine.Spending
import ProcLisp.Proofs.Syscall.Likeness

/-!
# Machines that look alike

Machines that look alike are at the same point of the same program. In worlds that cannot tell them
apart their dispatches charge the same and lead to machines that look alike again, so that they come
to their ends together.
-/

namespace ProcLisp

open Machine

namespace Likeness

/-! ### Parts of a machine -/

inductive TargetAlike (L : Likeness) : Target → Target → Prop where
  | list : TargetAlike L .list .list
  | syscall (name : Bytes) : TargetAlike L (.syscall name) (.syscall name)
  | primitive (p : Primitive) : TargetAlike L (.primitive p) (.primitive p)
  | apply {params : List Bytes} {body : Value} {e e' : Env} (bound : ∀ s ∈ params, L.binds s)
      (code : L.Code body) (captured : L.Captured e e') :
      TargetAlike L (.apply params body e) (.apply params body e')

inductive FrameAlike (L : Likeness) : Frame → Frame → Prop where
  | branch {yes no : Value} (first : L.Code yes) (second : L.Code no) :
      FrameAlike L (.branch yes no) (.branch yes no)
  | sequence {first : Value} {rest : List Value} (code : L.Code first) (later : ∀ e ∈ rest, L.Code e) :
      FrameAlike L (.sequence first rest) (.sequence first rest)
  | define {name : Bytes} (bound : L.binds name) : FrameAlike L (.define name) (.define name)
  | binding {name : Bytes} {others : List (Bytes × Value)} {first : Value} {rest : List Value}
      (bound : L.binds name) (bindings : ∀ b ∈ others, L.binds b.1 ∧ L.Code b.2)
      (code : L.Code first) (later : ∀ e ∈ rest, L.Code e) :
      FrameAlike L (.binding name others first rest) (.binding name others first rest)
  | restore {e e' : Env} (current : L.Current e e') : FrameAlike L (.restore e) (.restore e')
  | clause {body : Value} {others : List (Value × Value)} (code : L.Code body)
      (clauses : ∀ c ∈ others, L.Code c.1 ∧ L.Code c.2) :
      FrameAlike L (.clause body others) (.clause body others)
  | arguments {t t' : Target} {done done' pending : List Value} (target : L.TargetAlike t t')
      (values : List.Forall₂ (L.Alike false) done done') (later : ∀ e ∈ pending, L.Code e) :
      FrameAlike L (.arguments t done pending) (.arguments t' done' pending)
  | callee {args : List Value} (later : ∀ e ∈ args, L.Code e) :
      FrameAlike L (.callee args) (.callee args)
  | terminate : FrameAlike L .terminate .terminate

inductive EndingAlike (L : Likeness) : Ending → Ending → Prop where
  | exited {v w : Value} (reason : L.Alike false v w) : EndingAlike L (.exited v) (.exited w)
  | failed {f g : Failure} (failure : L.FailureAlike f g) : EndingAlike L (.failed f) (.failed g)

/-- Where two machines are, whose last values are `v` and `w`. -/
inductive ControlAlike (L : Likeness) (v w : Value) : Control → Control → Prop where
  | idle : ControlAlike L v w .idle .idle
  | eval {expr : Value} (code : L.Code expr) : ControlAlike L v w (.eval expr) (.eval expr)
  | returning (value : L.Alike false v w) : ControlAlike L v w .returning .returning
  | waiting : ControlAlike L v w .waiting .waiting
  | done (value : L.Alike false v w) : ControlAlike L v w .done .done
  | terminated {e e' : Ending} (ending : L.EndingAlike e e') :
      ControlAlike L v w (.terminated e) (.terminated e')

/-- What is alike about two machines, whatever they do next. A machine that returned nothing yet has
no value of its own. -/
structure ContextAlike (L : Likeness) (m m' : Machine) : Prop where
  env : L.Current m.env m'.env
  val : L.Alike false m.val m'.val ∨ m.val = m'.val
  frames : List.Forall₂ L.FrameAlike m.stack.frames m'.stack.frames
  supply : m.supply = m'.supply
  reductions : m.reductions = m'.reductions

structure MachineAlike (L : Likeness) (m m' : Machine) : Prop extends L.ContextAlike m m' where
  control : L.ControlAlike m.val m'.val m.control m'.control

/-- Hosts whose acts on machines, values and states that are alike come out alike. -/
structure HostAlike (L : Likeness) {σ τ : Type} (T : σ → τ → Prop) (host : Host σ)
    (host' : Host τ) : Prop where
  self : host.self = host'.self
  send : ∀ receiver {v w s t}, L.Alike false v w → T s t →
    Concur L.TroubleAlike T (host.send receiver v s) (host'.send receiver w t)
  receive : ∀ {s t}, T s t →
    Option.Rel (fun a b => L.Alike false a.1 b.1 ∧ T a.2 b.2) (host.receive s) (host'.receive t)
  fork : ∀ birth {m m' s t}, L.MachineAlike m m' → T s t →
    Concur L.TroubleAlike (fun a b => a.1 = b.1 ∧ T a.2 b.2) (host.fork birth m s)
      (host'.fork birth m' t)
  watch : ∀ target {s t}, T s t →
    Concur L.TroubleAlike T (host.watch target s) (host'.watch target t)

structure WorldAlike (L : Likeness) {σ τ : Type} (T : σ → τ → Prop) (world : World σ)
    (world' : World τ) : Prop where
  print : ∀ text {s t}, T s t → T (world.print text s) (world'.print text t)
  host : Option.Rel (L.HostAlike T) world.host world'.host

structure DispatchAlike (L : Likeness) {σ τ : Type} (T : σ → τ → Prop) (d : Dispatch σ)
    (d' : Dispatch τ) : Prop where
  charge : d.charge = d'.charge
  state : T d.state d'.state
  machine : Concur L.FailureAlike L.MachineAlike d.machine d'.machine

structure ProgressAlike (L : Likeness) {σ τ : Type} (T : σ → τ → Prop) (p : Progress σ)
    (p' : Progress τ) : Prop where
  status : p.status = p'.status
  machine : L.MachineAlike p.machine p'.machine
  value : p.status = .done → L.Alike false p.machine.val p'.machine.val
  state : T p.state p'.state

variable {L : Likeness} {σ τ : Type} {T : σ → τ → Prop} {world : World σ} {world' : World τ}
  {cfg : Config} {m m' : Machine} {s : σ} {t : τ} {e e' : Env} {v w : Value} {k k' : Frame}

namespace ContextAlike

theorem eval (context : L.ContextAlike m m') {expr : Value} (code : L.Code expr)
    (current : L.Current e e') : L.MachineAlike (m.eval expr e) (m'.eval expr e') :=
  ⟨⟨current, context.val, context.frames, context.supply, context.reductions⟩, .eval code⟩

theorem ret (context : L.ContextAlike m m') (alike : L.Alike false v w)
    (current : L.Current e e') : L.MachineAlike (m.ret v e) (m'.ret w e') :=
  ⟨⟨current, .inl alike, context.frames, context.supply, context.reductions⟩, .returning alike⟩

theorem exit (context : L.ContextAlike m m') (alike : L.Alike false v w) :
    L.MachineAlike (m.exit v) (m'.exit w) :=
  ⟨⟨context.env, context.val, .nil, context.supply, context.reductions⟩, .terminated (.exited alike)⟩

theorem fail (context : L.ContextAlike m m') {f g : Failure} (alike : L.FailureAlike f g) :
    L.MachineAlike (m.fail f) (m'.fail g) :=
  ⟨⟨context.env, context.val, .nil, context.supply, context.reductions⟩, .terminated (.failed alike)⟩

theorem depth_eq (context : L.ContextAlike m m') : m.stack.depth = m'.stack.depth := by
  rw [m.stack.depth_eq, m'.stack.depth_eq, context.frames.length_eq]

theorem push (context : L.ContextAlike m m') (cfg : Config) (frame : L.FrameAlike k k') :
    Concur L.FailureAlike L.ContextAlike (m.push cfg k) (m'.push cfg k') := by
  unfold Machine.push
  rw [context.depth_eq]
  split
  · exact .ok ⟨context.env, context.val, .cons frame context.frames, context.supply,
      context.reductions⟩
  · exact .error (.same _)

theorem pushEval (context : L.ContextAlike m m') (frame : L.FrameAlike k k') {expr : Value}
    (code : L.Code expr) (current : L.Current e e') :
    Concur L.FailureAlike L.MachineAlike ((m.push cfg k).map (·.eval expr e))
      ((m'.push cfg k').map (·.eval expr e')) :=
  (context.push cfg frame).map fun pushed => pushed.eval code current

theorem pushRestore (context : L.ContextAlike m m') (cfg : Config) (current : L.Current e e') :
    Concur L.FailureAlike L.ContextAlike (m.pushRestore cfg e) (m'.pushRestore cfg e') := by
  have pushed := context.push cfg (.restore current)
  have frames := context.frames
  unfold Machine.pushRestore
  generalize m.stack.frames = fs, m'.stack.frames = gs at frames
  cases frames with
  | nil => exact pushed
  | cons first later =>
    cases first with
    | restore =>
      dsimp only
      split
      · exact .ok context
      · exact pushed
    | _ => exact pushed

theorem evalSequence (context : L.ContextAlike m m') {first : Value} {rest : List Value}
    (code : L.Code first) (later : ∀ e ∈ rest, L.Code e) (current : L.Current e e') :
    Concur L.FailureAlike L.MachineAlike (m.evalSequence cfg first rest e)
      (m'.evalSequence cfg first rest e') := by
  cases rest with
  | nil => exact .ok (context.eval code current)
  | cons next others =>
    have frame : L.FrameAlike (.sequence next others) (.sequence next others) :=
      .sequence (later next (by simp)) fun e member => later e (by simp [member])
    exact context.pushEval frame code current

theorem enter (context : L.ContextAlike m m') {params : List Bytes} {body : Value}
    {c c' : Env} {xs ys : List Value} (bound : ∀ s ∈ params, L.binds s) (code : L.Code body)
    (captured : L.Captured c c') (args : List.Forall₂ (L.Alike false) xs ys)
    (current : L.Current e e') :
    Concur L.FailureAlike L.MachineAlike (m.enter cfg params body c xs e)
      (m'.enter cfg params body c' ys e') :=
  (context.pushRestore cfg current).map fun pushed =>
    pushed.eval code ((current.merge captured).bindAll bound args)

end ContextAlike

/-! ### Dispatches -/

namespace DispatchAlike

theorem quiet (same : T s t) {x y : Except Failure Machine}
    (machine : Concur L.FailureAlike L.MachineAlike x y) :
    L.DispatchAlike T (Machine.quiet s x) (Machine.quiet t y) := ⟨rfl, same, machine⟩

theorem fails (same : T s t) {f g : Failure} (failure : L.FailureAlike f g) :
    L.DispatchAlike T (Machine.quiet s (.error f)) (Machine.quiet t (.error g)) :=
  .quiet same (.error failure)

end DispatchAlike

namespace ContextAlike

/-- A primitive with a number of arguments that it does not take. -/
theorem misfit (same : T s t) {p : Primitive} {n n' : Nat} (count : n = n') :
    L.DispatchAlike T (Machine.quiet s (.error (.arityMismatch (.sym p.name) p.arity n)))
      (Machine.quiet t (.error (.arityMismatch (.sym p.name) p.arity n'))) := by
  rw [count]
  exact .fails same (.same _)

theorem arityMismatch_alike (callee : L.Alike false v w) (want got : Nat) :
    L.FailureAlike (.arityMismatch v want got) (.arityMismatch w want got) :=
  .raise _ (.of_items (.cons callee (.cons (.int _) (.cons (.int _) .nil))))

theorem typeMismatch_alike (want : Bytes) (alike : L.Alike false v w) :
    L.FailureAlike (.typeMismatch want v) (.typeMismatch want w) :=
  .raise _ (.of_items (.cons (.sym nofun) (.cons alike .nil)))

/-- Acts that only change the state, and answer `v` and `w`. -/
theorem acted (context : L.ContextAlike m m') (same : T s t) (answer : L.Alike false v w)
    (current : L.Current e e') {x : Except Trouble σ} {y : Except Trouble τ} :
    Concur L.TroubleAlike T x y → L.DispatchAlike T
      (match x with
        | .ok s => Machine.quiet s (.ok (m.ret v e))
        | .error f => Machine.quiet s (.error f.toFailure))
      (match y with
        | .ok t => Machine.quiet t (.ok (m'.ret w e'))
        | .error f => Machine.quiet t (.error f.toFailure)) := by
  intro done
  cases done with
  | ok related => exact .quiet related (.ok (context.ret answer current))
  | error trouble => exact .fails same trouble.toFailure

/-- Forks answer a pid, or something else that both parents get. -/
theorem forked (context : L.ContextAlike m m') (same : T s t) {f g : Pid → Value}
    (answer : ∀ p, L.Alike false (f p) (g p)) (current : L.Current e e')
    {x : Except Trouble (Pid × σ)} {y : Except Trouble (Pid × τ)} :
    Concur L.TroubleAlike (fun a b => a.1 = b.1 ∧ T a.2 b.2) x y → L.DispatchAlike T
      (match x with
        | .ok (p, s) => Machine.quiet s (.ok (m.ret (f p) e))
        | .error f => Machine.quiet s (.error f.toFailure))
      (match y with
        | .ok (p, t) => Machine.quiet t (.ok (m'.ret (g p) e'))
        | .error f => Machine.quiet t (.error f.toFailure)) := by
  intro done
  cases done with
  | ok related =>
    obtain ⟨pid, state⟩ := related
    dsimp only
    rw [pid]
    exact .quiet state (.ok (context.ret (answer _) current))
  | error trouble => exact .fails same trouble.toFailure

theorem ofFunction_alike {body : Value} {c c' : Env} (code : L.Code body)
    (captured : L.Captured c c') (current : L.Current e e') :
    Concur L.FailureAlike L.MachineAlike (ofFunction cfg body c e) (ofFunction cfg body c' e') := by
  have child : L.ContextAlike { env := e, stack := Stack.empty.push .terminate }
      { env := e', stack := Stack.empty.push .terminate } :=
    ⟨current, .inr rfl, .cons .terminate .nil, rfl, rfl⟩
  exact child.enter nofun code captured .nil current

theorem spawn (context : L.ContextAlike m m') {host : Host σ} {host' : Host τ}
    (hosts : L.HostAlike T host host') (same : T s t) (alike : L.Alike false v w)
    (current : L.Current e e') :
    L.DispatchAlike T (m.perform cfg host .spawn [v] e s) (m'.perform cfg host' .spawn [w] e' t) := by
  have refused : L.FailureAlike (.notFunction v) (.notFunction w) := .raise _ alike
  have closure := alike
  cases alike with
  | @lambda _ tag params body c c' =>
    obtain ⟨c', same', -, code, captured⟩ := closure.of_lambda
    obtain ⟨-, -, -, rfl⟩ := Value.lambda.inj same'
    unfold Machine.perform
    dsimp only
    split
    · exact .fails same (arityMismatch_alike closure _ _)
    · have function : Concur L.FailureAlike L.MachineAlike (ofFunction cfg body c e)
          (ofFunction cfg body c' e') := ofFunction_alike code captured current
      generalize ofFunction cfg body c e = x, ofFunction cfg body c' e' = y at function
      cases function with
      | ok child => exact context.forked same (fun p => .pid p) current (hosts.fork .spawn child same)
      | error failure => exact .fails same failure
  | _ => exact .fails same refused

theorem send (context : L.ContextAlike m m') {host : Host σ} {host' : Host τ}
    (hosts : L.HostAlike T host host') (same : T s t) {msg msg' : Value}
    (first : L.Alike false v w) (second : L.Alike false msg msg') (current : L.Current e e') :
    L.DispatchAlike T (m.perform cfg host .send [v, msg] e s)
      (m'.perform cfg host' .send [w, msg'] e' t) := by
  have refused := typeMismatch_alike Kind.pid first
  cases first with
  | pid p => exact context.acted same (.pid p) current (hosts.send p second.copy same)
  | _ => exact .fails same refused

theorem watch (context : L.ContextAlike m m') {host : Host σ} {host' : Host τ}
    (hosts : L.HostAlike T host host') (same : T s t) (alike : L.Alike false v w)
    (current : L.Current e e') :
    L.DispatchAlike T (m.perform cfg host .watch [v] e s)
      (m'.perform cfg host' .watch [w] e' t) := by
  have refused := typeMismatch_alike Kind.pid alike
  cases alike with
  | pid p => exact context.acted same (.pid p) current (hosts.watch p same)
  | _ => exact .fails same refused

theorem wait (context : L.ContextAlike m m') {host : Host σ} {host' : Host τ}
    (hosts : L.HostAlike T host host') (same : T s t) (current : L.Current e e') :
    L.DispatchAlike T (m.perform cfg host .wait [] e s) (m'.perform cfg host' .wait [] e' t) := by
  have received := hosts.receive same
  unfold Machine.perform
  dsimp only
  generalize host.receive s = x, host'.receive t = y at received
  cases received with
  | none =>
    exact .quiet same (.ok ⟨⟨current, context.val, context.frames, context.supply,
      context.reductions⟩, .waiting⟩)
  | some related => exact .quiet related.2 (.ok (context.ret related.1 current))

theorem perform (context : L.ContextAlike m m') {host : Host σ} {host' : Host τ}
    (hosts : L.HostAlike T host host') (same : T s t) (p : Primitive) {xs ys : List Value}
    (args : List.Forall₂ (L.Alike false) xs ys) (current : L.Current e e') :
    L.DispatchAlike T (m.perform cfg host p xs e s) (m'.perform cfg host' p ys e' t) := by
  cases p with
  | pid =>
    rcases args with _ | ⟨first, later⟩
    · exact .quiet same (.ok (context.ret (by rw [hosts.self]; exact .pid _) current))
    · exact misfit same (by simp [later.length_eq])
  | fork =>
    rcases args with _ | ⟨first, later⟩
    · exact context.forked same (fun _ => .bool false) current
        (hosts.fork .fork (context.ret (.bool true) current) same)
    · exact misfit same (by simp [later.length_eq])
  | spawn =>
    rcases args with _ | ⟨first, _ | ⟨second, later⟩⟩
    · exact misfit same rfl
    · exact context.spawn hosts same first current
    · cases first <;> exact misfit same (by simp [later.length_eq])
  | send =>
    rcases args with _ | ⟨first, _ | ⟨second, _ | ⟨third, later⟩⟩⟩
    · exact misfit same rfl
    · cases first <;> exact misfit same rfl
    · exact context.send hosts same first second current
    · cases first <;> exact misfit same (by simp [later.length_eq])
  | wait =>
    rcases args with _ | ⟨first, later⟩
    · exact context.wait hosts same current
    · exact misfit same (by simp [later.length_eq])
  | watch =>
    rcases args with _ | ⟨first, _ | ⟨second, later⟩⟩
    · exact misfit same rfl
    · exact context.watch hosts same first current
    · cases first <;> exact misfit same (by simp [later.length_eq])
  | terminate =>
    rcases args with _ | ⟨first, _ | ⟨second, later⟩⟩
    · exact misfit same rfl
    · exact .quiet same (.ok (context.exit first))
    · exact misfit same (by simp [later.length_eq])

theorem dispatch (context : L.ContextAlike m m') (worlds : L.WorldAlike T world world')
    (respects : cfg.table.Respects L) (same : T s t) {target target' : Target}
    (targets : L.TargetAlike target target') {xs ys : List Value}
    (args : List.Forall₂ (L.Alike false) xs ys) (current : L.Current e e') :
    L.DispatchAlike T (m.dispatch cfg world target xs e s)
      (m'.dispatch cfg world' target' ys e' t) := by
  cases targets with
  | list => exact .quiet same (.ok (context.ret (.of_items args) current))
  | syscall name =>
    unfold Machine.dispatch
    dsimp only
    rw [args.length_eq]
    cases found : cfg.table.lookup name ys.length with
    | error f => exact .fails same (.same f)
    | ok sc =>
      have called := (respects _ (SyscallTable.mem_of_lookup found).1).call args
      dsimp only at called ⊢
      refine ⟨rfl, ?_, called.2.map fun alike => context.ret alike current⟩
      dsimp only
      rw [called.1]
      split
      · exact same
      · exact worlds.print _ same
  | primitive p =>
    have hosts := worlds.host
    unfold Machine.dispatch
    dsimp only
    generalize world.host = x, world'.host = y at hosts
    cases hosts with
    | none => exact .fails same (.same _)
    | some related => exact context.perform related same p args current
  | apply bound code captured =>
    exact .quiet same (context.enter bound code captured args current)

theorem evalArgs (context : L.ContextAlike m m') (worlds : L.WorldAlike T world world')
    (respects : cfg.table.Respects L) (same : T s t) {target target' : Target}
    (targets : L.TargetAlike target target') {args : List Value} (code : ∀ e ∈ args, L.Code e)
    (current : L.Current e e') :
    L.DispatchAlike T (m.evalArgs cfg world target args e s)
      (m'.evalArgs cfg world' target' args e' t) := by
  cases args with
  | nil => exact context.dispatch worlds respects same targets .nil current
  | cons expr pending =>
    have frame : L.FrameAlike (.arguments target [] pending) (.arguments target' [] pending) :=
      .arguments targets .nil fun e member => code e (by simp [member])
    exact .quiet same (context.pushEval frame (code expr (by simp)) current)

theorem close (context : L.ContextAlike m m') {params : List Bytes} {body : Value}
    (bound : ∀ s ∈ params, L.binds s) (code : L.Code body) (current : L.Current e e') :
    L.MachineAlike (m.close params body e) (m'.close params body e') := by
  have closure : L.Alike false (.lambda ⟨m.supply.origin, m.supply.next⟩ params body e)
      (.lambda ⟨m'.supply.origin, m'.supply.next⟩ params body e') := by
    rw [context.supply]
    exact current.toCaptured.closure bound code _
  have supply : Supply.mk m.supply.origin (m.supply.next + 1) =
      ⟨m'.supply.origin, m'.supply.next + 1⟩ := by rw [context.supply]
  exact ⟨⟨current, .inl closure, context.frames, supply, context.reductions⟩, .returning closure⟩

theorem lookup (context : L.ContextAlike m m') {name : Bytes} (seen : L.word name)
    (current : L.Current e e') :
    Concur L.FailureAlike L.MachineAlike ((e.lookup name).map (m.ret · e))
      ((e'.lookup name).map (m'.ret · e')) := by
  have found := current.found name seen
  unfold Env.lookup
  generalize Dict.find? e name = x, Dict.find? e' name = y at found
  cases found with
  | none => exact .error (.same _)
  | some alike => exact .ok (context.ret alike current)

theorem letIn (context : L.ContextAlike m m') (same : T s t) {bindings : List (Bytes × Value)}
    {first : Value} {rest : List Value} (form : L.FormCode (.letIn bindings first rest))
    (current : L.Current e e') :
    L.DispatchAlike T (m.evalForm cfg world (.letIn bindings first rest) e s)
      (m'.evalForm cfg world' (.letIn bindings first rest) e' t) := by
  obtain ⟨bound, code, later⟩ := form
  refine .quiet same ?_
  have pushed := context.pushRestore cfg current
  generalize m.pushRestore cfg e = x, m'.pushRestore cfg e' = y at pushed
  cases pushed with
  | error failure => exact .error failure
  | ok context =>
    cases bindings with
    | nil => exact context.evalSequence code later current
    | cons binding others =>
      obtain ⟨named, expr⟩ := bound binding (by simp)
      have frame : L.FrameAlike (.binding binding.1 others first rest)
          (.binding binding.1 others first rest) :=
        .binding named (fun b member => bound b (by simp [member])) code later
      exact context.pushEval frame expr current

theorem evalForm (context : L.ContextAlike m m') (worlds : L.WorldAlike T world world')
    (respects : cfg.table.Respects L) (same : T s t) {form : Form} (code : L.FormCode form)
    (current : L.Current e e') :
    L.DispatchAlike T (m.evalForm cfg world form e s) (m'.evalForm cfg world' form e' t) := by
  cases form with
  | value v => exact .quiet same (.ok (context.ret code current))
  | lookup name => exact .quiet same (context.lookup code current)
  | branch test yes no =>
    exact .quiet same (context.pushEval (.branch code.2.1 code.2.2) code.1 current)
  | sequence first rest => exact .quiet same (context.evalSequence code.1 code.2 current)
  | define name expr => exact .quiet same (context.pushEval (.define code.1) code.2 current)
  | letIn bindings first rest => exact context.letIn same code current
  | lambda params body => exact .quiet same (.ok (context.close code.1 code.2 current))
  | cond clauses =>
    cases clauses with
    | nil => exact .quiet same (.ok (context.ret (.sym nofun) current))
    | cons clause others =>
      obtain ⟨test, body⟩ := code clause (by simp)
      have frame : L.FrameAlike (.clause clause.2 others) (.clause clause.2 others) :=
        .clause body fun c member => code c (by simp [member])
      exact .quiet same (context.pushEval frame test current)
  | list items => exact context.evalArgs worlds respects same .list code current
  | primitive p args => exact context.evalArgs worlds respects same (.primitive p) code current
  | syscall name args => exact context.evalArgs worlds respects same (.syscall name) code current
  | apply head args => exact .quiet same (context.pushEval (.callee code.2) code.1 current)

theorem applied (context : L.ContextAlike m m') (worlds : L.WorldAlike T world world')
    (respects : cfg.table.Respects L) (same : T s t) {args : List Value}
    (code : ∀ e ∈ args, L.Code e) (alike : L.Alike false v w) (current : L.Current e e') :
    L.DispatchAlike T (m.resumeFrame cfg world (.callee args) v e s)
      (m'.resumeFrame cfg world' (.callee args) w e' t) := by
  have refused : L.FailureAlike (.notFunction v) (.notFunction w) := .raise _ alike
  have closure := alike
  cases alike with
  | lambda =>
    obtain ⟨c', same', bound, body, captured⟩ := closure.of_lambda
    obtain ⟨-, -, -, rfl⟩ := Value.lambda.inj same'
    unfold Machine.resumeFrame
    dsimp only
    split
    · exact context.evalArgs worlds respects same (.apply bound body captured) code current
    · exact .fails same (arityMismatch_alike closure _ _)
  | _ => exact .fails same refused

theorem resumeFrame (context : L.ContextAlike m m') (worlds : L.WorldAlike T world world')
    (respects : cfg.table.Respects L) (same : T s t) (frame : L.FrameAlike k k')
    (alike : L.Alike false v w) (current : L.Current e e') :
    L.DispatchAlike T (m.resumeFrame cfg world k v e s) (m'.resumeFrame cfg world' k' w e' t) := by
  cases frame with
  | branch first second =>
    unfold Machine.resumeFrame
    rw [alike.truthy_eq]
    refine .quiet same (.ok (context.eval ?_ current))
    split
    · exact first
    · exact second
  | sequence code later => exact .quiet same (context.evalSequence code later current)
  | define bound => exact .quiet same (.ok (context.ret alike (current.bind bound alike)))
  | @binding name others first rest bound bindings code later =>
    have inner := current.bind bound alike
    cases others with
    | nil => exact .quiet same (context.evalSequence code later inner)
    | cons binding others =>
      obtain ⟨named, expr⟩ := bindings binding (by simp)
      have frame : L.FrameAlike (.binding binding.1 others first rest)
          (.binding binding.1 others first rest) :=
        .binding named (fun b member => bindings b (by simp [member])) code later
      exact .quiet same (context.pushEval frame expr inner)
  | restore saved => exact .quiet same (.ok (context.ret alike saved))
  | @clause body others code clauses =>
    simp only [Machine.resumeFrame, alike.truthy_eq]
    split
    · exact .quiet same (.ok (context.eval code current))
    cases others with
    | nil => exact .quiet same (.ok (context.ret (.sym nofun) current))
    | cons clause others =>
      obtain ⟨test, body⟩ := clauses clause (by simp)
      have frame : L.FrameAlike (.clause clause.2 others) (.clause clause.2 others) :=
        .clause body fun c member => clauses c (by simp [member])
      exact .quiet same (context.pushEval frame test current)
  | @arguments target target' done done' pending targets values later =>
    have extended : List.Forall₂ (L.Alike false) (v :: done) (w :: done') := .cons alike values
    cases pending with
    | nil => exact context.dispatch worlds respects same targets (List.rel_reverse extended) current
    | cons expr pending =>
      have frame : L.FrameAlike (.arguments target (v :: done) pending)
          (.arguments target' (w :: done') pending) :=
        .arguments targets extended fun e member => later e (by simp [member])
      exact .quiet same (context.pushEval frame (later expr (by simp)) current)
  | callee later => exact context.applied worlds respects same later alike current
  | terminate => exact .quiet same (.ok (context.exit (.sym nofun)))

end ContextAlike

theorem pop?_alike {k k' : Stack} (frames : List.Forall₂ L.FrameAlike k.frames k'.frames) :
    Option.Rel (fun a b => L.FrameAlike a.1 b.1 ∧ List.Forall₂ L.FrameAlike a.2.frames b.2.frames)
      k.pop? k'.pop? := by
  obtain ⟨fs, depth, depth_eq⟩ := k
  obtain ⟨gs, depth', depth_eq'⟩ := k'
  cases frames with
  | nil => exact .none
  | cons first later => exact .some ⟨first, later⟩

namespace MachineAlike

theorem next? (alike : L.MachineAlike m m') (worlds : L.WorldAlike T world world')
    (respects : cfg.table.Respects L) (same : T s t) :
    Option.Rel (L.DispatchAlike T) (m.next? cfg world s) (m'.next? cfg world' t) := by
  have control := alike.control
  unfold Machine.next?
  generalize m.control = c, m'.control = c' at control
  cases control with
  | eval code =>
    refine .some ?_
    unfold evalStep
    cases read : Form.read cfg.table _ with
    | error f => exact .fails same (.same f)
    | ok form =>
      exact alike.toContextAlike.evalForm worlds respects same (formCode_read code read) alike.env
  | returning value =>
    have popped := pop?_alike alike.frames
    dsimp only
    generalize m.stack.pop? = x, m'.stack.pop? = y at popped
    cases popped with
    | none => exact .none
    | @some a b related =>
      have context : L.ContextAlike { m with control := .returning, stack := a.2 }
          { m' with control := .returning, stack := b.2 } :=
        ⟨alike.env, alike.val, related.2, alike.supply, alike.reductions⟩
      exact .some (context.resumeFrame worlds respects same related.1 value alike.env)
  | _ => exact .none

theorem after (alike : L.MachineAlike m m') {d : Dispatch σ} {d' : Dispatch τ}
    (dispatched : L.DispatchAlike T d d') : L.MachineAlike (m.after d) (m'.after d') := by
  have counted : ∀ {n n' : Machine}, L.MachineAlike n n' →
      L.MachineAlike { n with reductions := m.reductions + 1 + d.charge.toUInt64 }
        { n' with reductions := m'.reductions + 1 + d'.charge.toUInt64 } := by
    intro n n' next
    refine ⟨⟨next.env, next.val, next.frames, next.supply, ?_⟩, next.control⟩
    show _ = _
    rw [alike.reductions, dispatched.charge]
  have machine := dispatched.machine
  unfold Machine.after
  generalize d.machine = x, d'.machine = y at machine
  cases machine with
  | ok next => exact counted next
  | error failure => exact counted (alike.toContextAlike.fail failure)

/-! ### Runs -/

theorem halted? (alike : L.MachineAlike m m') :
    Option.Rel (fun a b => a.1 = b.1 ∧ L.MachineAlike a.2 b.2 ∧
      (a.1 = .done → L.Alike false a.2.val b.2.val)) m.halted? m'.halted? := by
  have control := alike.control
  have failed := alike.toContextAlike.fail (.same (.unknown MachineError.notLoaded.message))
  unfold Machine.halted?
  generalize m.control = c, m'.control = c' at control
  cases control with
  | idle => exact .some ⟨rfl, failed, nofun⟩
  | eval | returning => exact .none
  | waiting => exact .some ⟨rfl, alike, nofun⟩
  | done value => exact .some ⟨rfl, alike, fun _ => value⟩
  | terminated => exact .some ⟨rfl, alike, nofun⟩

/-- A machine that has nothing left to do has a value. -/
theorem val_of_stuck (alike : L.MachineAlike m m') (going : m.halted? = none)
    (stuck : m.next? cfg world s = none) : L.Alike false m.val m'.val := by
  have control := alike.control
  unfold Machine.halted? at going
  unfold Machine.next? at stuck
  generalize m.control = c, m'.control = c' at control going stuck
  cases control with
  | returning value => exact value
  | eval => cases stuck
  | _ => cases going

theorem pause (alike : L.MachineAlike m m') (same : T s t) :
    L.ProgressAlike T (m.pause s) (m'.pause t) := by
  have halted := alike.halted?
  unfold Machine.pause
  generalize m.halted? = x, m'.halted? = y at halted
  cases halted with
  | none => exact ⟨rfl, alike, nofun, same⟩
  | some related => exact ⟨related.1, related.2.1, related.2.2, same⟩

theorem runFor (alike : L.MachineAlike m m') (worlds : L.WorldAlike T world world')
    (respects : cfg.table.Respects L) (same : T s t) (fuel budget : Nat) :
    L.ProgressAlike T (m.runFor cfg world fuel budget s) (m'.runFor cfg world' fuel budget t) := by
  induction fuel generalizing budget m m' s t with
  | zero => exact alike.pause same
  | succ fuel ih =>
    have halts : m.halted?.isSome = m'.halted?.isSome := by
      have halted := alike.halted?
      generalize m.halted? = x, m'.halted? = y at halted
      cases halted <;> rfl
    unfold Machine.runFor
    rw [← halts]
    split
    · exact alike.pause same
    rename_i going
    have live : m.halted? = none := by
      simp only [Bool.or_eq_true, not_or] at going
      simpa using going.2
    have dispatched := alike.next? worlds respects same
    have value : m.next? cfg world s = none → L.Alike false m.val m'.val :=
      alike.val_of_stuck live
    generalize m.next? cfg world s = x, m'.next? cfg world' t = y at dispatched value
    cases dispatched with
    | none =>
      have context : L.ContextAlike { m with control := .done } { m' with control := .done } :=
        ⟨alike.env, alike.val, alike.frames, alike.supply, alike.reductions⟩
      exact ⟨rfl, ⟨context, .done (value rfl)⟩, fun _ => value rfl, same⟩
    | some related =>
      dsimp only
      rw [related.charge]
      exact ih (alike.after related) related.state _

theorem complete (alike : L.MachineAlike m m') (worlds : L.WorldAlike T world world')
    (respects : cfg.table.Respects L) (same : T s t) (rounds : Nat) :
    L.ProgressAlike T (m.complete cfg world rounds s) (m'.complete cfg world' rounds t) := by
  induction rounds generalizing m m' s t with
  | zero => exact alike.pause same
  | succ rounds ih =>
    have progress := alike.runFor worlds respects same round round
    unfold Machine.complete
    dsimp only [run]
    rw [← progress.status]
    split
    · exact ih progress.machine progress.state
    · exact progress

/-- A program that is loaded replaces all but the last value and what is counted. -/
theorem load (val : L.Alike false m.val m'.val ∨ m.val = m'.val) (supply : m.supply = m'.supply)
    (reductions : m.reductions = m'.reductions) {exprs : List Value}
    (code : ∀ e ∈ exprs, L.Code e) (current : L.Current e e') :
    L.MachineAlike (m.load exprs e) (m'.load exprs e') := by
  unfold Machine.load
  split
  · exact ⟨⟨current, .inl .empty, .nil, supply, reductions⟩, .returning .empty⟩
  · exact ⟨⟨current, val, .nil, supply, reductions⟩, .eval (code _ (by simp))⟩
  · rename_i first next others
    have frame : L.FrameAlike (.sequence next others) (.sequence next others) :=
      .sequence (code next (by simp)) fun e member => code e (by simp [member])
    exact ⟨⟨current, val, .cons frame .nil, supply, reductions⟩, .eval (code first (by simp))⟩

end MachineAlike

/-! ### Evaluations -/

inductive OutcomeAlike (L : Likeness) : Outcome → Outcome → Prop where
  | value {v w : Value} {e e' : Env} (value : L.Alike false v w) (env : L.Current e e') :
      OutcomeAlike L (.value v e) (.value w e')
  | failed {f g : Failure} (failure : L.FailureAlike f g) : OutcomeAlike L (.failed f) (.failed g)
  | error (e : MachineError) : OutcomeAlike L (.error e) (.error e)

structure EvaluationAlike (L : Likeness) (r r' : Evaluation) : Prop where
  outcome : L.OutcomeAlike r.outcome r'.outcome
  transcript : r.transcript = r'.transcript
  supply : r.supply = r'.supply
  reductions : r.reductions = r'.reductions

theorem ProgressAlike.outcome? {p : Progress σ} {p' : Progress τ} (progress : L.ProgressAlike T p p') :
    Option.Rel L.OutcomeAlike (p.machine.outcome? p.status) (p'.machine.outcome? p'.status) := by
  have value := progress.value
  have control := progress.machine.control
  rw [← progress.status]
  unfold Machine.outcome? Machine.ending?
  generalize p.status = status at value
  cases status with
  | yielded => exact .none
  | done => exact .some (.value (value rfl) progress.machine.env)
  | blocked => exact .some (.error _)
  | terminated =>
    dsimp only
    generalize p.machine.control = c, p'.machine.control = c' at control
    cases control with
    | terminated ending =>
      cases ending with
      | exited => exact .some (.error _)
      | failed failure => exact .some (.failed failure)
    | _ => exact .some (.error _)

theorem worldAlike_solitary (L : Likeness) : L.WorldAlike Eq World.solitary World.solitary where
  print text {_ _} same := congrArg (text :: ·) same
  host := .none

/-- Programs that are alike from environments that are alike come to the same end, or to none. -/
theorem evalProgram_alike (respects : cfg.table.Respects L) {exprs : List Value}
    (code : ∀ e ∈ exprs, L.Code e) (current : L.Current e e') (rounds : Nat) (supply : Supply) :
    Option.Rel L.EvaluationAlike (evalProgram cfg rounds exprs e supply)
      (evalProgram cfg rounds exprs e' supply) := by
  have loaded : L.MachineAlike (({ supply } : Machine).load exprs e)
      (({ supply } : Machine).load exprs e') := .load (.inr rfl) rfl rfl code current
  have progress := loaded.complete (worldAlike_solitary L) respects (rfl : ([] : Transcript) = [])
    rounds
  have outcome := progress.outcome?
  unfold evalProgram
  dsimp only
  generalize Machine.complete cfg World.solitary rounds (({ supply } : Machine).load exprs e) [] = p,
    Machine.complete cfg World.solitary rounds (({ supply } : Machine).load exprs e') [] = p'
    at progress outcome
  generalize p.machine.outcome? p.status = x, p'.machine.outcome? p'.status = y at outcome
  cases outcome with
  | none => exact .none
  | some related =>
    exact .some ⟨related, progress.state, progress.machine.supply, progress.machine.reductions⟩

end Likeness
end ProcLisp
