import ProcLisp.Proofs.Machine.Clean

/-!
# Machines that bind no reserved name

A machine arises from programs that were read, in clean environments and in worlds that deliver
clean messages, by dispatches, by forks and by messages that it waited for. With the standard table
every machine that arises is clean, and so is all that it hands to the world.
-/

namespace ProcLisp

open Machine Likeness

/-- The machines of all runs, those of their children included. -/
inductive Machine.Arises (cfg : Config) (refused : Failure → Prop) : Machine → Prop where
  | fresh (supply : Supply) : Arises cfg refused { supply }
  /-- Any machine may be given a program. -/
  | load {m : Machine} {source : Bytes} {exprs : List Value} {env : Env}
      (before : Arises cfg refused m) (parsed : Reader.parse source = .ok exprs)
      (bound : env.Clean) : Arises cfg refused (m.load exprs env)
  | dispatch {σ : Type} {world : World σ} {P : σ → Prop} {m : Machine} {s : σ} {d : Dispatch σ}
      (before : Arises cfg refused m) (delivers : world.Delivers refused P) (holds : P s)
      (next : m.next? cfg world s = some d) : Arises cfg refused (m.after d)
  /-- A child is a machine of its own from when the host takes it. -/
  | child {σ : Type} {world : World σ} {P : σ → Prop} {m child : Machine} {s : σ}
      {deeds : List Deed} {d : Dispatch (σ × List Deed)} {birth : Birth} {pid : Pid}
      (before : Arises cfg refused m) (delivers : world.Delivers refused P) (holds : P s)
      (next : m.next? cfg world.recording (s, deeds) = some d)
      (handed : .forked birth child pid ∈ d.state.2) (new : .forked birth child pid ∉ deeds) :
      Arises cfg refused child
  | adopt {m : Machine} (before : Arises cfg refused m) (p : Pid) : Arises cfg refused (m.adopt p)
  | resume {m next : Machine} {msg : Value} (before : Arises cfg refused m) (clean : msg.Clean)
      (resumed : m.resume msg = .ok next) : Arises cfg refused next
  /-- A machine that is out of work is done. -/
  | finish {m : Machine} (before : Arises cfg refused m) (returning : m.control = .returning)
      (out : m.stack.frames = []) : Arises cfg refused { m with control := .done }
  /-- A machine that is run without a program fails. -/
  | unloaded {m : Machine} (before : Arises cfg refused m) (idle : m.control = .idle) :
      Arises cfg refused (m.fail (.unknown MachineError.notLoaded.message))

theorem clean_of_legible {v : Value} (legible : v.Legible) : v.Clean := by
  induction legible with
  | int n => exact .int n
  | bool b => exact .bool b
  | sym => exact .sym _
  | str s => exact .str s
  | list _ ih => exact .list ih

theorem clean_of_parse {source : Bytes} {exprs : List Value}
    (parsed : Reader.parse source = .ok exprs) : ∀ e ∈ exprs, e.Clean :=
  fun e member => clean_of_legible (Reader.legible_of_parse parsed e member)

section

variable {σ : Type} {cfg : Config} {world : World σ} {refused : Failure → Prop} {P : σ → Prop}
  {m : Machine} {s : σ}

namespace Machine.Clean

theorem fresh (supply : Supply) : ({ supply } : Machine).Clean refused :=
  ⟨trivial, .empty, .bare [], nofun⟩

theorem load (clean : m.Clean refused) {exprs : List Value} {env : Env}
    (code : ∀ e ∈ exprs, e.Clean) (bound : env.Clean) : (m.load exprs env).Clean refused := by
  cases exprs with
  | nil => exact ⟨trivial, bound, .empty, nofun⟩
  | cons first rest =>
    obtain ⟨head, later⟩ := List.forall_mem_cons.mp code
    cases rest with
    | nil => exact ⟨head, bound, clean.val, nofun⟩
    | cons next others =>
      have frame : Frame.Clean (.sequence next others) := List.forall_mem_cons.mp later
      exact ⟨head, bound, clean.val, List.forall_mem_cons.mpr ⟨frame, nofun⟩⟩

theorem resume (clean : m.Clean refused) {msg : Value} (value : msg.Clean) {next : Machine}
    (resumed : m.resume msg = .ok next) : next.Clean refused := by
  unfold Machine.resume at resumed
  split at resumed
  · obtain rfl := Except.ok.inj resumed
    exact ⟨trivial, clean.env, value, clean.frames⟩
  · cases resumed

/-- What a dispatch in a delivering world adds to the record is clean. -/
theorem recorded (clean : m.Clean refused) (calls : cfg.table.Clean)
    (delivers : world.Delivers refused P) (holds : P s) {deeds : List Deed}
    {d : ProcLisp.Dispatch (σ × List Deed)}
    (next : m.next? cfg world.recording (s, deeds) = some d) :
    d.Clean refused fun x => P x.1 ∧ ∀ deed ∈ x.2, deed ∈ deeds ∨ deed.Clean refused :=
  clean.next? calls (delivers.recording fun _ => .inr) ⟨holds, fun _ => .inl⟩ next

end Machine.Clean

namespace Machine.Arises

theorem clean (calls : cfg.table.Clean) (arises : m.Arises cfg refused) : m.Clean refused := by
  induction arises with
  | fresh supply => exact .fresh supply
  | load _ parsed bound ih => exact ih.load (clean_of_parse parsed) bound
  | dispatch _ delivers holds next ih => exact ih.after (ih.next? calls delivers holds next)
  | child _ delivers holds next handed new ih =>
    exact ((ih.recorded calls delivers holds next).state.2 _ handed).resolve_left new
  | adopt _ _ ih => exact ⟨ih.control, ih.env, ih.val, ih.frames⟩
  | resume _ value resumed ih => exact ih.resume value resumed
  | finish _ _ _ ih => exact ⟨trivial, ih.env, ih.val, ih.frames⟩
  | unloaded _ _ ih => exact ih.fail (.inl (Failure.clean_raise _ (.str _)))

end Machine.Arises

/-! ### A scripted host -/

theorem Refusal.clean (r : Refusal) : r.trouble.toFailure.Clean := by
  unfold Refusal.trouble
  split
  · exact Failure.clean_raise _ (.str _)
  · exact Failure.clean_raise _ (.sym _)

theorem Script.answers {α : Type} {P : α → Prop} {s : Script} (act : Act) {a : α} (holds : P a) :
    Answered Failure.Clean P (match s.refused? act with
      | some e => .error e
      | none => .ok a) := by
  cases found : s.refused? act with
  | none => exact holds
  | some e =>
    unfold Script.refused? at found
    split at found
    · split at found
      · exact Option.some.inj found ▸ Refusal.clean _
      · cases found
    · cases found

/-- With clean mail given beforehand, a scripted host delivers clean messages. -/
theorem Script.delivers (self : Option Pid) :
    (Script.world self).Delivers Failure.Clean fun s => ∀ msg ∈ s.inbox, msg.Clean where
  print := id
  send := by
    intro host receiver msg s acting clean holds
    obtain ⟨p, rfl, rfl⟩ := Option.map_eq_some_iff.mp acting
    exact Script.answers .send holds
  receive := by
    intro host msg s s' acting received holds
    obtain ⟨p, rfl, rfl⟩ := Option.map_eq_some_iff.mp acting
    obtain ⟨self', inbox⟩ := s
    cases inbox with
    | nil => cases received
    | cons first rest =>
      obtain ⟨rfl, rfl⟩ := Prod.mk.inj (Option.some.inj received)
      exact List.forall_mem_cons.mp holds
  fork := by
    intro host birth child s acting clean holds
    obtain ⟨p, rfl, rfl⟩ := Option.map_eq_some_iff.mp acting
    exact Script.answers .fork holds
  watch := by
    intro host target s acting holds
    obtain ⟨p, rfl, rfl⟩ := Option.map_eq_some_iff.mp acting
    exact Script.answers .watch holds

/-! ### Runs -/

/-- What is known of an act on record. A child that was handed over is a machine of its own. -/
structure Deed.Settled (cfg : Config) (refused : Failure → Prop) (deed : Deed) : Prop where
  clean : deed.Clean refused
  child : ∀ {birth child pid}, deed = .forked birth child pid → child.Arises cfg refused

/-- Where runs in a delivering world get to. -/
structure Machine.Arrives (cfg : Config) (refused : Failure → Prop) (P : σ → Prop) (m : Machine)
    (x : σ × List Deed) : Prop where
  machine : m.Arises cfg refused
  state : P x.1
  deeds : ∀ deed ∈ x.2, deed.Settled cfg refused

theorem World.Delivers.runKeeps (delivers : world.Delivers refused P) (calls : cfg.table.Clean) :
    RunKeeps cfg world.recording (Machine.Arrives cfg refused P) where
  dispatch := by
    rintro m ⟨s, deeds⟩ d ⟨arises, holds, settled⟩ next
    obtain ⟨kept, recorded⟩ := ((arises.clean calls).recorded calls delivers holds next).state
    have recording := delivers.recording (Q := fun _ => True) fun _ _ => trivial
    refine ⟨arises.dispatch recording ⟨holds, fun _ _ => trivial⟩ next, kept, fun deed member => ?_⟩
    by_cases old : deed ∈ deeds
    · exact settled deed old
    · refine ⟨(recorded deed member).resolve_left old, ?_⟩
      rintro birth child pid rfl
      exact arises.child delivers holds next member old
  finish arrived returning out :=
    ⟨arrived.machine.finish returning out, arrived.state, arrived.deeds⟩
  unloaded arrived idle := ⟨arrived.machine.unloaded idle, arrived.state, arrived.deeds⟩

/-- No machine that arises with the standard table binds a reserved name, and in a world that
delivers clean messages a run of it comes to another one, with clean messages sent and children
that arise as well. Only a failure for which the world refused an act may be unclean. -/
theorem reserved_names_stay_unbound (sink : Syscall.Sink) (bound : Int)
    (arises : m.Arises (.ofBound (.standard sink) bound) refused) :
    m.Clean refused ∧
      ∀ {σ : Type} {world : World σ} {P : σ → Prop} {s : σ}, world.Delivers refused P → P s →
        ∀ budget,
          let p := m.run (.ofBound (.standard sink) bound) world.recording budget (s, [])
          p.machine.Arises (.ofBound (.standard sink) bound) refused ∧ P p.state.1 ∧
            ∀ deed ∈ p.state.2, deed.Settled (.ofBound (.standard sink) bound) refused := by
  have calls : (Config.ofBound (.standard sink) bound).table.Clean :=
    SyscallTable.clean_standard sink
  refine ⟨arises.clean calls, fun delivers holds budget => ?_⟩
  have start : m.Arrives (.ofBound (.standard sink) bound) refused _ (_, []) :=
    ⟨arises, holds, nofun⟩
  obtain ⟨machine, state, deeds⟩ := (delivers.runKeeps calls).runFor budget budget start
  exact ⟨machine, state, deeds⟩

end

namespace FunctionByMail

def source : Bytes := ascii "(def f (wait)) (send (pid) f) (spawn (fn () (f 1)))"

def cfg : Config := .ofBound (.standard .opened) 0

/-- The identity of another machine. -/
def mail : Value := .lambda ⟨7, 0⟩ [ascii "x"] (.sym (ascii "x")) []

def ran (exprs : List Value) : Progress (Script × List Deed) :=
  (({} : Machine).load exprs []).run cfg (Script.world (some (.issued 1))).recording 40
    ({ inbox := [mail] }, [])

def shown (exprs : List Value) : Status × Nat := ((ran exprs).status, (ran exprs).state.2.length)

end FunctionByMail

open FunctionByMail in
/-- A function that came as a message is bound, sent on and called in a process of its own. -/
theorem reserved_names_stay_unbound_function_by_mail :
    ∃ exprs, Reader.parse source = .ok exprs ∧ shown exprs = (.done, 3) ∧
      (ran exprs).machine.Clean Failure.Clean ∧
      ∀ deed ∈ (ran exprs).state.2, deed.Settled cfg Failure.Clean := by
  obtain ⟨exprs, parsed⟩ : ∃ exprs, Reader.parse source = .ok exprs := ⟨_, rfl⟩
  have three : (Reader.parse source).toOption.map shown = some (.done, 3) := by decide +kernel
  rw [parsed] at three
  have arises : (({} : Machine).load exprs []).Arises cfg Failure.Clean :=
    .load (.fresh {}) parsed .empty
  have function : mail.Clean := .lambda (by decide) (.sym _) .nil nofun nofun
  have inbox : ∀ msg ∈ [mail], msg.Clean := List.forall_mem_singleton.mpr function
  obtain ⟨machine, -, deeds⟩ := (reserved_names_stay_unbound .opened 0 arises).2
    (Script.delivers (some (.issued 1))) (s := { inbox := [mail] }) inbox 40
  have clean := (reserved_names_stay_unbound .opened 0 machine).1
  exact ⟨exprs, parsed, Option.some.inj three, clean, deeds⟩

end ProcLisp
