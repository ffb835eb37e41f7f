import ProcLisp.Proofs.Indexed.Machine
import ProcLisp.Proofs.Machine.Built

/-!
# Calls of the machine of positions

A machine of positions shows a machine proper if it is in range and what is still to do is the same.
Entering a function and handing arguments to their target run into no fault, as long as there are as
many arguments as the target takes, and lead to machines of which the one shows the other again.
-/

namespace ProcLisp.Indexed

open Likeness (whole)

/-- All frames are in range, and they show those of `M`. -/
structure Machine.Shows (m : Machine) (M : ProcLisp.Machine) : Prop where
  range : m.InRange
  view : m.view = M

/-- Machines of which the first shows the second one, or one failure. -/
def Agree : Except Failure Machine → Except Failure ProcLisp.Machine → Prop :=
  Concur Eq Machine.Shows

structure Dispatch.Shows {σ : Type} (d : Dispatch σ) (D : ProcLisp.Dispatch σ) : Prop where
  state : d.state = D.state
  charge : d.charge = D.charge
  machine : Agree d.machine D.machine
  calls : ∀ c ∈ d.calls, c.Fits
  child : ∀ c ∈ d.child, c.InRange ∧ c.view.Built

/-- The bodies of the syscalls are those of the table, as long as the arguments are built. -/
def Config.Faithful (cfg : Config) : Prop :=
  ∀ (name : Bytes) (args : List Value) (sc : Syscall), cfg.table.lookup name args.length = .ok sc →
    (∀ v ∈ args, v.Built) → cfg.body name args = .ok (sc.run args)

variable {σ : Type} {cfg : Config} {world : World σ} {m : Machine} {s : σ} {env : Env} {v : Value}
  {k : Frame}

theorem Dispatch.Shows.calling {d : Dispatch σ} {D : ProcLisp.Dispatch σ} (shown : d.Shows D)
    {call : Call} (fits : call.Fits) : (d.calling call).Shows D :=
  ⟨shown.state, shown.charge, shown.machine, List.forall_mem_cons.mpr ⟨fits, shown.calls⟩,
    shown.child⟩

namespace Machine

theorem shows_ret (range : m.InRange) (v : Value) (env : Env) :
    (m.ret v env).Shows (m.view.ret v env) := ⟨range, rfl⟩

theorem shows_eval (range : m.InRange) (expr : Value) (env : Env) :
    (m.eval expr env).Shows (m.view.eval expr env) := ⟨range, rfl⟩

theorem shows_exit (m : Machine) (reason : Value) : (m.exit reason).Shows (m.view.exit reason) :=
  ⟨nofun, rfl⟩

theorem agree_push (cfg : Config) (range : m.InRange) (inside : k.InRange) :
    Agree (m.push cfg k) (m.view.push cfg.toConfig k.view) := by
  unfold push ProcLisp.Machine.push
  show Agree _ (if m.frames.length < cfg.maxFrames then _ else _)
  split
  · exact .ok ⟨List.forall_mem_cons.mpr ⟨inside, range⟩, rfl⟩
  · exact .error rfl

theorem agree_pushEval (cfg : Config) (range : m.InRange) (inside : k.InRange) (expr : Value)
    (env : Env) :
    Agree ((m.push cfg k).map (·.eval expr env))
      ((m.view.push cfg.toConfig k.view).map (·.eval expr env)) := by
  refine (agree_push cfg range inside).map fun {a b} pushed => ?_
  rw [← pushed.view]
  exact shows_eval pushed.range expr env

theorem agree_pushRestore (cfg : Config) (range : m.InRange) (env : Env) :
    Agree (m.pushRestore cfg env) (m.view.pushRestore cfg.toConfig env) := by
  have pushed : Agree (m.push cfg (.restore env)) (m.view.push cfg.toConfig (.restore env)) :=
    agree_push cfg range trivial
  unfold pushRestore ProcLisp.Machine.pushRestore
  rw [show m.view.stack.frames = m.frames.map Frame.view from rfl]
  cases frames : m.frames with
  | nil => exact pushed
  | cons first below =>
    cases first with
    | restore saved =>
      show Agree (if cfg.elide then _ else _) (if cfg.elide then _ else _)
      split
      · exact .ok ⟨range, rfl⟩
      · exact pushed
    | _ => exact pushed

theorem evalSequence_yields (range : m.InRange) (first : Value) (rest : List Value) (env : Env) :
    Yields (m.evalSequence cfg (first :: rest) env)
      (Agree · (m.view.evalSequence cfg.toConfig first rest env)) := by
  cases rest with
  | nil => exact yields_ok (.ok (shows_eval range first env))
  | cons next others =>
    have inside : (Frame.sequence (next :: others)).InRange := List.cons_ne_nil next others
    have pushed : Agree ((m.push cfg (.sequence (next :: others))).map (·.eval first env))
        (m.view.evalSequence cfg.toConfig first (next :: others) env) :=
      agree_pushEval cfg range inside first env
    unfold evalSequence
    rw [if_pos (by simp), slice_of_le (by simp)]
    exact yields_ok pushed

theorem bindParams_eq (args : List Value) {params : List Bytes} {scope : Env} {i : Nat}
    (enough : args.length = i + params.length) :
    bindParams scope args params i = .ok (scope.bindAll params (args.drop i)) := by
  induction params generalizing scope i with
  | nil => cases args.drop i <;> rfl
  | cons p ps ih =>
    rw [List.length_cons] at enough
    have inside : i < args.length := by omega
    rw [bindParams, read_of_lt inside, List.drop_eq_getElem_cons inside]
    exact ih (by omega)

theorem apply_yields (range : m.InRange) {params : List Bytes} {args : List Value}
    (enough : args.length = params.length) (body : Value) (captured env : Env) :
    Yields (m.apply cfg params body captured args env)
      (Agree · (m.view.enter cfg.toConfig params body captured args env)) := by
  have pushed : Agree ((m.pushRestore cfg env).map
      (·.eval body ((env.merge captured).bindAll params args)))
      (m.view.enter cfg.toConfig params body captured args env) := by
    refine (agree_pushRestore cfg range env).map fun {a b} pushed => ?_
    rw [← pushed.view]
    exact shows_eval pushed.range _ _
  unfold apply
  rw [bindParams_eq args (by omega)]
  exact yields_ok pushed

/-! ### Dispatches -/

theorem shows_quiet {x : Except Failure Machine} {y : Except Failure ProcLisp.Machine}
    (agree : Agree x y) : (quiet s x).Shows (ProcLisp.Machine.quiet s y) :=
  ⟨rfl, rfl, agree, nofun, nofun⟩

theorem shows_error (s : σ) (f : Failure) :
    (quiet s (.error f)).Shows (ProcLisp.Machine.quiet s (.error f)) := shows_quiet (.error rfl)

theorem quiet_yields {x : Checked (Except Failure Machine)} {y : Except Failure ProcLisp.Machine}
    (yields : Yields x (Agree · y)) (s : σ) :
    Yields (quiet s <$> x) (Dispatch.Shows · (ProcLisp.Machine.quiet s y)) :=
  yields.map fun _ agree => shows_quiet agree

theorem yields_error (s : σ) (f : Failure) :
    Yields (.ok (quiet s (.error f))) (Dispatch.Shows · (ProcLisp.Machine.quiet s (.error f))) :=
  yields_ok (shows_error s f)

theorem yields_ret (range : m.InRange) (v : Value) (env : Env) (s : σ) :
    Yields (.ok (quiet s (.ok (m.ret v env))))
      (Dispatch.Shows · (ProcLisp.Machine.quiet s (.ok (m.view.ret v env)))) :=
  yields_ok (shows_quiet (.ok (shows_ret range v env)))

theorem shows_answered (range : m.InRange) (v : Value) (env : Env) (s : σ)
    (x : Except Trouble σ) :
    (m.answered v env s x).Shows (match x with
      | .ok s => ProcLisp.Machine.quiet s (.ok (m.view.ret v env))
      | .error e => ProcLisp.Machine.quiet s (.error e.toFailure)) := by
  cases x with
  | ok => exact shows_quiet (.ok (shows_ret range v env))
  | error e => exact shows_error s e.toFailure

theorem shows_handOver (range : m.InRange) {host : Host σ} {birth : Birth} {child : Machine}
    (child_range : child.InRange) (built : child.view.Built) (answer : Pid → Value) (env : Env)
    (s : σ) :
    (m.handOver host birth child answer env s).Shows (match host.fork birth child.view s with
      | .ok (pid, s) => ProcLisp.Machine.quiet s (.ok (m.view.ret (answer pid) env))
      | .error e => ProcLisp.Machine.quiet s (.error e.toFailure)) := by
  have handed : ∀ c ∈ some child, c.InRange ∧ c.view.Built := by
    intro c same
    obtain rfl := Option.some.inj same
    exact ⟨child_range, built⟩
  unfold handOver
  cases host.fork birth child.view s with
  | ok forked => exact ⟨rfl, rfl, .ok (shows_ret range _ env), nofun, handed⟩
  | error e => exact ⟨rfl, rfl, .error rfl, nofun, handed⟩

theorem ofFunction_yields {params : List Bytes} (none : params.length = 0) (body : Value)
    (captured env : Env) :
    Yields (ofFunction cfg params body captured env)
      (Agree · (ProcLisp.Machine.ofFunction cfg.toConfig body captured env)) := by
  have fresh : Machine.InRange { env := env, frames := [.terminate] } :=
    List.forall_mem_singleton.mpr trivial
  obtain rfl := List.length_eq_zero_iff.mp none
  exact apply_yields fresh rfl body captured env

theorem shows_spawned (range : m.InRange) (host : Host σ) (env : Env) (s : σ)
    {x : Except Failure Machine} {y : Except Failure ProcLisp.Machine} :
    Agree x y → (∀ child, y = .ok child → child.Built) →
    (m.spawned host env s x).Shows (match y with
      | .error f => ProcLisp.Machine.quiet s (.error f)
      | .ok child => match host.fork .spawn child s with
        | .ok (pid, s) => ProcLisp.Machine.quiet s (.ok (m.view.ret (.pid pid) env))
        | .error e => ProcLisp.Machine.quiet s (.error e.toFailure)) := by
  intro agree built
  cases agree with
  | error same =>
    subst same
    exact shows_error s _
  | @ok child _ shown =>
    obtain ⟨child_range, rfl⟩ := shown
    exact shows_handOver range child_range (built _ rfl) .pid env s

theorem spawn_yields (range : m.InRange) (host : Host σ) (current : whole.Current env env)
    (f : Value) (built : f.Built) (s : σ) :
    Yields (m.perform cfg host .spawn [f] env s)
      (Dispatch.Shows · (m.view.perform cfg.toConfig host .spawn [f] env s)) := by
  cases f with
  | lambda tag params body captured =>
    have entered : ∀ child, ProcLisp.Machine.ofFunction cfg.toConfig body captured env = .ok child →
        child.Built := fun child entered => .ofFunction built current entered
    show Yields (if params.length ≠ 0 then _ else _) _
    unfold ProcLisp.Machine.perform
    dsimp only
    by_cases some : params.length ≠ 0
    · rw [if_pos some, if_pos some]
      exact yields_error s _
    · rw [if_neg some, if_neg some]
      have fits : (Call.lambda params []).Fits := by
        show 0 = params.length
        omega
      refine (ofFunction_yields (by omega) body captured env).bind fun child agree => ?_
      exact yields_ok ((shows_spawned range host env s agree entered).calling fits)
  | _ => exact yields_error s _

theorem perform_yields (range : m.InRange) (host : Host σ)
    (context : whole.ContextAlike m.view m.view) (current : whole.Current env env) {p : Primitive}
    {args : List Value} (built : ∀ v ∈ args, v.Built) (count : args.length = p.arity) (s : σ) :
    Yields (m.perform cfg host p args env s)
      (Dispatch.Shows · (m.view.perform cfg.toConfig host p args env s)) := by
  cases p with
  | pid =>
    obtain rfl := List.length_eq_zero_iff.mp count
    exact yields_ret range _ env s
  | fork =>
    obtain rfl := List.length_eq_zero_iff.mp count
    have child_range : (m.ret (.bool true) env).InRange := range
    have child : (m.ret (.bool true) env).view.Built := context.ret (.bool true) current
    exact yields_ok (shows_handOver range child_range child (fun _ => .bool false) env s)
  | spawn =>
    obtain ⟨f, rfl⟩ := List.length_eq_one_iff.mp count
    exact spawn_yields range host current f (built f (by simp)) s
  | send =>
    obtain ⟨receiver, msg, rfl⟩ := List.length_eq_two.mp count
    cases receiver with
    | pid p => exact yields_ok (shows_answered range (.pid p) env s _)
    | _ => exact yields_error s _
  | wait =>
    obtain rfl := List.length_eq_zero_iff.mp count
    unfold perform ProcLisp.Machine.perform
    dsimp only
    cases host.receive s with
    | none => exact yields_ok (shows_quiet (.ok ⟨range, rfl⟩))
    | some mail => exact yields_ret range mail.1 env mail.2
  | watch =>
    obtain ⟨target, rfl⟩ := List.length_eq_one_iff.mp count
    cases target with
    | pid p => exact yields_ok (shows_answered range (.pid p) env s _)
    | _ => exact yields_error s _
  | terminate =>
    obtain ⟨reason, rfl⟩ := List.length_eq_one_iff.mp count
    exact yields_ok (shows_quiet (.ok (shows_exit m reason)))

theorem dispatch_yields (faithful : cfg.Faithful) (range : m.InRange)
    (context : whole.ContextAlike m.view m.view) (current : whole.Current env env)
    {target : Target} {args : List Value} (built : ∀ v ∈ args, v.Built)
    (takes : Takes target args.length) (s : σ) :
    Yields (m.dispatch cfg world target args env s)
      (Dispatch.Shows · (m.view.dispatch cfg.toConfig world target args env s)) := by
  cases target with
  | list => exact yields_ret range _ env s
  | syscall name =>
    unfold dispatch ProcLisp.Machine.dispatch
    dsimp only
    cases found : cfg.table.lookup name args.length with
    | error f => exact yields_error s f
    | ok sc =>
      have answer : Agree ((sc.call args).2.map (m.ret · env))
          ((sc.call args).2.map (m.view.ret · env)) := by
        cases (sc.call args).2 with
        | ok v => exact .ok (shows_ret range v env)
        | error f => exact .error rfl
      have fits : (Call.syscall sc args).Fits := (SyscallTable.mem_of_lookup found).2
      dsimp only
      rw [faithful name args sc found built]
      exact yields_ok ⟨rfl, rfl, answer, List.forall_mem_singleton.mpr fits, nofun⟩
  | primitive p =>
    unfold dispatch ProcLisp.Machine.dispatch
    dsimp only
    refine Yields.map ?_ fun d (shown : d.Shows _) => shown.calling takes
    cases world.host with
    | none => exact yields_error s _
    | some host => exact perform_yields range host context current built takes s
  | apply params body captured =>
    exact (apply_yields range takes body captured env).bind fun next agree =>
      yields_ok ((shows_quiet agree).calling takes)

theorem evalArgs_yields (faithful : cfg.Faithful) (range : m.InRange)
    (context : whole.ContextAlike m.view m.view) (current : whole.Current env env)
    {target : Target} {args : List Value} (takes : Takes target args.length) (s : σ) :
    Yields (m.evalArgs cfg world target args env s)
      (Dispatch.Shows · (m.view.evalArgs cfg.toConfig world target args env s)) := by
  cases args with
  | nil => exact dispatch_yields faithful range context current (List.forall_mem_nil _) takes s
  | cons e pending =>
    have inside : (Frame.arguments target (e :: pending) []).InRange :=
      ⟨Nat.zero_lt_succ pending.length, takes⟩
    exact yields_ok (shows_quiet (agree_pushEval cfg range inside e env))

end Machine
end ProcLisp.Indexed
