import ProcLisp.Proofs.Machine.Likeness
import ProcLisp.Proofs.Value.Built

/-!
# Machines of built values

A machine that starts with built values goes on with built values, as long as the messages that it
gets are built: no syscall of the standard table makes another one.
-/

namespace ProcLisp

open Machine Likeness

/-- Every value of the machine is built, but for the one that it has before it returns any. -/
def Machine.Built (m : Machine) : Prop := whole.MachineAlike m m

/-- The messages that the process of the world receives are built. -/
def World.BuiltMail {σ : Type} (world : World σ) : Prop :=
  ∀ host ∈ world.host, ∀ s msg s', host.receive s = some (msg, s') → msg.Built

namespace Likeness

variable {e e' : Env} {k k' : Frame} {f g : Failure} {m m' : Machine}

theorem same_of_target {t t' : Target} (alike : whole.TargetAlike t t') : t = t' := by
  cases alike with
  | apply _ _ captured => rw [(same_of_envAlike captured.toEnvAlike).1]
  | _ => rfl

theorem same_of_frame (alike : whole.FrameAlike k k') : k = k' := by
  cases alike with
  | restore current => rw [(same_of_envAlike current.toEnvAlike).1]
  | arguments target values => rw [same_of_target target, (same_of_items values).1]
  | _ => rfl

theorem same_of_failure (alike : whole.FailureAlike f g) : f = g := by
  cases alike with
  | same => rfl
  | raise kind payload => rw [(same_of_alike payload).1]

theorem same_of_control {v w : Value} {c c' : Control} (alike : whole.ControlAlike v w c c') :
    c = c' := by
  cases alike with
  | terminated ending =>
    cases ending with
    | exited reason => rw [(same_of_alike reason).1]
    | failed failure => rw [same_of_failure failure]
  | _ => rfl

theorem same_of_frames {s t : Stack} (alike : List.Forall₂ whole.FrameAlike s.frames t.frames) :
    s = t := by
  obtain ⟨frames, depth, depth_eq⟩ := s
  obtain ⟨frames', depth', depth_eq'⟩ := t
  have same : frames = frames' :=
    List.forall₂_eq_eq_eq ▸ alike.imp fun _ _ => same_of_frame
  subst same depth_eq depth_eq'
  rfl

theorem same_of_machine (alike : whole.MachineAlike m m') : m = m' := by
  have control := same_of_control alike.control
  have env := (same_of_envAlike alike.env.toEnvAlike).1
  have val : m.val = m'.val := alike.val.elim (fun value => (same_of_alike value).1) id
  have stack := same_of_frames alike.frames
  have supply := alike.supply
  have reductions := alike.reductions
  cases m
  cases m'
  simp_all

variable {σ : Type}

theorem concur_self (x : Except Trouble σ) : Concur whole.TroubleAlike Eq x x := by
  cases x with
  | ok => exact .ok rfl
  | error trouble =>
    cases trouble with
    | language f => exact .error (.language (.same f))
    | plain text => exact .error (.plain text)

theorem hostAlike_self {host : Host σ}
    (mail : ∀ s msg s', host.receive s = some (msg, s') → msg.Built) :
    whole.HostAlike Eq host host where
  self := rfl
  send receiver {v w s t} alike same := by
    obtain rfl := (same_of_alike alike).1
    obtain rfl := same
    exact concur_self _
  receive {s t} same := by
    obtain rfl := same
    cases received : host.receive s with
    | none => exact .none
    | some message => exact .some ⟨alike_of_built (mail s message.1 message.2 received), rfl⟩
  fork birth {m m' s t} alike same := by
    obtain rfl := same_of_machine alike
    obtain rfl := same
    have forked := concur_self (host.fork birth m s)
    generalize host.fork birth m s = x at forked
    cases forked with
    | ok => exact .ok ⟨rfl, rfl⟩
    | error trouble => exact .error trouble
  watch target {s t} same := by
    obtain rfl := same
    exact concur_self _

theorem worldAlike_self {world : World σ} (mail : world.BuiltMail) :
    whole.WorldAlike Eq world world where
  print text {s t} same := by rw [same]
  host := by
    cases acting : world.host with
    | none => exact .none
    | some host => exact .some (hostAlike_self (mail host acting))

end Likeness

namespace Machine.Built

variable {σ : Type} {cfg : Config} {world : World σ} {m : Machine} {s : σ} {env : Env}

theorem toContext (built : m.Built) : whole.ContextAlike m m := MachineAlike.toContextAlike built

theorem fresh (supply : Supply) : ({ supply } : Machine).Built :=
  ⟨⟨current_of_built ⟨.nil, nofun⟩, .inr rfl, .nil, rfl, rfl⟩, .idle⟩

theorem load (built : m.Built) {exprs : List Value} (code : ∀ e ∈ exprs, e.Built)
    (bound : env.Built) : (m.load exprs env).Built :=
  MachineAlike.load built.toContext.val rfl rfl (fun e member => alike_of_built (code e member))
    (current_of_built bound)

theorem after (built : m.Built) (respects : cfg.table.Respects whole) (mail : world.BuiltMail)
    {d : Dispatch σ} (next : m.next? cfg world s = some d) : (m.after d).Built := by
  have dispatched := MachineAlike.next? built (worldAlike_self mail) respects (rfl : s = s)
  rw [next] at dispatched
  cases dispatched with
  | some related => exact MachineAlike.after built related

theorem fail (built : m.Built) (f : Failure) : (m.fail f).Built := built.toContext.fail (.same f)

/-- The value of a machine that is out of work is its result. -/
theorem finish (built : m.Built) (returning : m.control = .returning) :
    ({ m with control := .done } : Machine).Built := by
  have context := built.toContext
  have control := built.control
  rw [returning] at control
  cases control with
  | returning value =>
    exact ⟨⟨context.env, context.val, context.frames, rfl, rfl⟩, .done value⟩

theorem adopt (built : m.Built) (p : Pid) : (m.adopt p).Built := by
  have context := built.toContext
  exact ⟨⟨context.env, context.val, context.frames, rfl, rfl⟩, built.control⟩

theorem resume (built : m.Built) {msg : Value} (known : msg.Built) {next : Machine}
    (resumed : m.resume msg = .ok next) : next.Built := by
  have context := built.toContext
  unfold Machine.resume at resumed
  split at resumed
  · obtain rfl := Except.ok.inj resumed
    exact ⟨⟨context.env, .inl (alike_of_built known), context.frames, rfl, rfl⟩,
      .returning (alike_of_built known)⟩
  · cases resumed

/-- The machine of a new process. -/
theorem ofFunction {tag : Tag} {params : List Bytes} {body : Value} {captured env : Env}
    (built : (Value.lambda tag params body captured).Built) (current : whole.Current env env)
    {child : Machine} (entered : Machine.ofFunction cfg body captured env = .ok child) :
    child.Built := by
  obtain ⟨c', same, -, code, upper⟩ := (alike_of_built (c := false) built).of_lambda
  obtain ⟨-, -, -, rfl⟩ := Value.lambda.inj same
  have alike : Concur whole.FailureAlike whole.MachineAlike
      (Machine.ofFunction cfg body captured env) (Machine.ofFunction cfg body captured env) :=
    ContextAlike.ofFunction_alike code upper current
  rw [entered] at alike
  cases alike with
  | ok built => exact built

end Machine.Built
end ProcLisp
