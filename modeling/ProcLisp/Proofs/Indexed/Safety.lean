import ProcLisp.Proofs.Indexed.Agreement
import ProcLisp.Proofs.Reader.Legible

/-!
# No read is out of range

A machine of positions arises from programs that were read and environments of built values, in
worlds that only deliver built messages, by dispatches, by forks and by messages that it waited for.
With the standard table all its frames are in range at every point, so that no dispatch runs into a
fault, whatever world it is in.
-/

namespace ProcLisp.Indexed

open Likeness (whole)

/-- The machines of all runs, those of their children included. -/
inductive Arises (cfg : Config) : Machine → Prop where
  | fresh (supply : Supply) : Arises cfg { supply }
  /-- Any machine may be given a program. -/
  | load {m next : Machine} {source : Bytes} {exprs : List Value} {env : Env}
      (before : Arises cfg m) (parsed : Reader.parse source = .ok exprs) (bound : env.Built)
      (loaded : m.load cfg exprs env = .ok next) : Arises cfg next
  | dispatch {σ : Type} {world : World σ} {m : Machine} {s : σ} {d : Dispatch σ}
      (before : Arises cfg m) (mail : world.BuiltMail)
      (next : m.next? cfg world s = .ok (some d)) : Arises cfg (m.after d)
  /-- A child is a machine of its own from when the host gets it. -/
  | child {σ : Type} {world : World σ} {m child : Machine} {s : σ} {d : Dispatch σ}
      (before : Arises cfg m) (mail : world.BuiltMail)
      (next : m.next? cfg world s = .ok (some d)) (handed : d.child = some child) :
      Arises cfg child
  | adopt {m : Machine} (before : Arises cfg m) (p : Pid) : Arises cfg (m.adopt p)
  | resume {m next : Machine} {msg : Value} (before : Arises cfg m) (known : msg.Built)
      (resumed : m.resume msg = .ok next) : Arises cfg next
  /-- A machine that is out of work is done. -/
  | finish {m : Machine} (before : Arises cfg m) (returning : m.control = .returning)
      (out : m.frames = []) : Arises cfg { m with control := .done }
  /-- A machine that is run without a program fails. -/
  | unloaded {m : Machine} (before : Arises cfg m) (idle : m.control = .idle) :
      Arises cfg (m.fail (.unknown MachineError.notLoaded.message))

/-- What every machine that arises keeps. -/
structure Machine.Sound (m : Machine) : Prop where
  range : m.InRange
  built : m.view.Built

/-- What the dispatch of the machine proper comes to. -/
def Dispatch.view {σ : Type} (d : Dispatch σ) : ProcLisp.Dispatch σ :=
  { state := d.state, charge := d.charge, machine := d.machine.map Machine.view }

variable {σ : Type} {cfg : Config} {world : World σ} {m : Machine} {s : σ}

theorem Dispatch.Shows.view_eq {d : Dispatch σ} {D : ProcLisp.Dispatch σ} (shown : d.Shows D) :
    d.view = D := by
  obtain ⟨state, charge, machine, calls, child⟩ := d
  obtain ⟨state', charge', machine'⟩ := D
  obtain ⟨rfl, rfl, agree, -, -⟩ := shown
  cases agree with
  | ok shown =>
    obtain ⟨-, rfl⟩ := shown
    rfl
  | error same =>
    subst same
    rfl

theorem faithful_standard (sink : Syscall.Sink) (bound : Int) :
    (Config.standard sink bound).Faithful := fun _ _ _ => body_of_lookup

theorem maxFrames_pos (sink : Syscall.Sink) (bound : Int) :
    0 < (Config.standard sink bound).maxFrames := by
  show 0 < if bound ≤ 0 then 100000 else bound.toNat
  split <;> omega

theorem built_of_legible {v : Value} (legible : v.Legible) : v.Built := by
  induction legible with
  | int n => exact .int n
  | bool b => exact .bool b
  | sym => exact .sym _
  | str s => exact .str s
  | list _ ih => exact .list ih

/-! ### Steps -/

namespace Machine

theorem shows_after (m : Machine) {d : Dispatch σ} {D : ProcLisp.Dispatch σ} (shown : d.Shows D) :
    (m.after d).Shows (m.view.after D) := by
  obtain ⟨state, charge, machine, calls, child⟩ := d
  obtain ⟨state', charge', machine'⟩ := D
  obtain ⟨rfl, rfl, agree, -, -⟩ := shown
  cases agree with
  | ok shown =>
    obtain ⟨range, rfl⟩ := shown
    exact ⟨range, rfl⟩
  | error same =>
    subst same
    exact ⟨nofun, rfl⟩

theorem load_yields (room : 0 < cfg.maxFrames) (m : Machine) (exprs : List Value) (env : Env) :
    Yields (m.load cfg exprs env) (·.Shows (m.view.load exprs env)) := by
  cases exprs with
  | nil => exact yields_ok ⟨nofun, rfl⟩
  | cons first rest =>
    let fresh : Machine := { m with env := env, frames := [] }
    have empty : fresh.InRange := nofun
    have pushed : fresh.view.evalSequence cfg.toConfig first rest env =
        .ok (m.view.load (first :: rest) env) := by
      cases rest with
      | nil => rfl
      | cons next others =>
        show (if 0 < cfg.maxFrames then Except.ok _ else _).map _ = _
        rw [if_pos room]
        rfl
    have evaluated : Yields (fresh.evalSequence cfg (first :: rest) env)
        (Agree · (fresh.view.evalSequence cfg.toConfig first rest env)) :=
      evalSequence_yields empty first rest env
    rw [pushed] at evaluated
    refine evaluated.bind fun next agree => ?_
    cases agree with
    | ok shown => exact yields_ok shown

/-- What a sound machine does next, with nothing left to go wrong. -/
theorem Sound.next (sound : m.Sound) (faithful : cfg.Faithful) (s : σ) {d : Dispatch σ}
    (next : m.next? cfg world s = .ok (some d)) :
    ∃ D, m.view.next? cfg.toConfig world s = some D ∧ d.Shows D := by
  obtain ⟨found, same, shown⟩ := next?_yields faithful sound.range sound.built world s
  obtain rfl := Except.ok.inj (same.symm.trans next)
  generalize m.view.next? cfg.toConfig world s = y at shown
  cases shown with
  | some shown => exact ⟨_, rfl, shown⟩

end Machine

theorem Arises.sound {sink : Syscall.Sink} {bound : Int} (arises : Arises (.standard sink bound) m) :
    m.Sound := by
  have faithful := faithful_standard sink bound
  have room := maxFrames_pos sink bound
  induction arises with
  | fresh supply => exact ⟨nofun, .fresh supply⟩
  | load before parsed bound' loaded ih =>
    obtain ⟨next, same, shown⟩ := Machine.load_yields room _ _ _
    obtain rfl := Except.ok.inj (same.symm.trans loaded)
    have code := fun e member => built_of_legible (Reader.legible_of_parse parsed e member)
    exact ⟨shown.range, shown.view ▸ ih.built.load code bound'⟩
  | @dispatch _ _ m _ _ before mail next ih =>
    obtain ⟨D, found, shown⟩ := ih.next faithful _ next
    have after := m.shows_after shown
    have respects := SyscallTable.respects_standard whole sink
    exact ⟨after.range, after.view ▸ ih.built.after respects mail found⟩
  | child before mail next handed ih =>
    obtain ⟨D, found, shown⟩ := ih.next faithful _ next
    obtain ⟨range, built⟩ := shown.child _ handed
    exact ⟨range, built⟩
  | adopt before p ih => exact ⟨ih.range, ih.built.adopt p⟩
  | @resume m next msg before known resumed ih =>
    obtain ⟨c, env, val, frames, supply, reductions⟩ := m
    cases c with
    | waiting =>
      obtain rfl := Except.ok.inj resumed
      exact ⟨ih.range, ih.built.resume known rfl⟩
    | _ => cases resumed
  | finish before returning out ih => exact ⟨ih.range, ih.built.finish returning⟩
  | unloaded before idle ih => exact ⟨nofun, ih.built.fail _⟩

/-! ### Runs -/

variable {sink : Syscall.Sink} {bound : Int}

theorem Arises.pause (arises : Arises cfg m) (s : σ) :
    ∃ n, Arises cfg n ∧ n.view = (m.view.pause s).machine := by
  obtain ⟨c, env, val, frames, supply, reductions⟩ := m
  cases c with
  | idle => exact ⟨_, arises.unloaded rfl, rfl⟩
  | _ => exact ⟨_, arises, rfl⟩

theorem Arises.stuck (arises : Arises cfg m) {budget : Nat}
    (going : ¬ (decide (budget = 0) || m.view.halted?.isSome) = true)
    (stuck : m.view.next? cfg.toConfig world s = none) :
    ∃ n, Arises cfg n ∧ n.view = { m.view with control := .done } := by
  obtain ⟨c, env, val, frames, supply, reductions⟩ := m
  cases c with
  | returning =>
    cases frames with
    | nil => exact ⟨_, arises.finish rfl rfl, rfl⟩
    | cons => cases stuck
  | eval => cases stuck
  | _ => simp [Machine.view, ProcLisp.Machine.halted?] at going

/-- All that the machine proper comes to is shown by machines that arise. -/
theorem Arises.runFor (arises : Arises (.standard sink bound) m) (mail : world.BuiltMail)
    (fuel budget : Nat) (s : σ) :
    ∃ n, Arises (.standard sink bound) n ∧ n.view =
      (m.view.runFor (.ofBound (.standard sink) bound) world fuel budget s).machine := by
  -- fuel and budget are those of the machine proper, which is shown dispatch by dispatch
  induction fuel generalizing m budget s with
  | zero => exact arises.pause s
  | succ fuel ih =>
    unfold ProcLisp.Machine.runFor
    split
    · exact arises.pause s
    rename_i going
    have sound := arises.sound
    obtain ⟨next, same, shown⟩ :=
      Machine.next?_yields (faithful_standard sink bound) sound.range sound.built world s
    have agreed : (Config.standard sink bound).toConfig = .ofBound (.standard sink) bound := rfl
    rw [agreed] at shown
    generalize found : m.view.next? (.ofBound (.standard sink) bound) world s = y at shown
    cases shown with
    | none => exact arises.stuck going found
    | @some d D shown =>
      have after := m.shows_after shown
      obtain ⟨n, later, view⟩ := ih (arises.dispatch mail same) (budget - 1 - D.charge) D.state
      rw [after.view] at view
      exact ⟨n, later, view⟩

/-- The machine of positions never reads out of range, nor does it rely on data that a value does not
have: with the standard table and any bound on the stack, whatever is loaded and whatever world it is
in. The frames of every machine that arises, children included, hold positions of items and lists that
are not empty, and functions get as many arguments as they take. What is loaded and what is dispatched
is what the machine proper does, all of whose runs it shows. -/
theorem reads_in_range (sink : Syscall.Sink) (bound : Int) {m : Machine}
    (arises : Arises (.standard sink bound) m) :
    (∀ k ∈ m.frames, k.InRange) ∧
    (∀ (exprs : List Value) (env : Env), ∃ next,
      m.load (.standard sink bound) exprs env = .ok next ∧ next.view = m.view.load exprs env) ∧
    ∀ (σ : Type) (world : World σ) (s : σ), world.BuiltMail →
      (∃ next, m.next? (.standard sink bound) world s = .ok next ∧
        next.map Dispatch.view = m.view.next? (.ofBound (.standard sink) bound) world s ∧
        ∀ d ∈ next, ∀ call ∈ d.calls, call.Fits) ∧
      ∀ budget, ∃ n, Arises (.standard sink bound) n ∧
        n.view = (m.view.run (.ofBound (.standard sink) bound) world budget s).machine := by
  have sound := arises.sound
  refine ⟨sound.range, fun exprs env => ?_, fun σ world s mail => ⟨?_, ?_⟩⟩
  · obtain ⟨next, loaded, shown⟩ := Machine.load_yields (maxFrames_pos sink bound) m exprs env
    exact ⟨next, loaded, shown.view⟩
  · obtain ⟨next, found, shown⟩ :=
      Machine.next?_yields (faithful_standard sink bound) sound.range sound.built world s
    have agreed : (Config.standard sink bound).toConfig = .ofBound (.standard sink) bound := rfl
    rw [agreed] at shown
    refine ⟨next, found, ?_⟩
    generalize m.view.next? (.ofBound (.standard sink) bound) world s = y at shown
    cases shown with
    | none => exact ⟨rfl, nofun⟩
    | some shown =>
      refine ⟨congrArg some shown.view_eq, fun d same => ?_⟩
      obtain rfl := Option.some.inj same
      exact shown.calls
  · exact fun budget => arises.runFor mail budget budget s

/-- A machine with the arguments of a sum, of which the last one is evaluated. -/
theorem reads_in_range_before_call :
    ∃ m, Arises (.standard .opened 0) m ∧
      m.frames = [.arguments (.syscall (ascii "+")) [.int 1, .int 2] [.int 1]] ∧
      (∀ k ∈ m.frames, k.InRange) ∧
      ∃ d sc, m.next? (.standard .opened 0) .solitary [] = .ok (some d) ∧
        d.calls = [.syscall sc [.int 1, .int 2]] ∧ (Call.syscall sc [.int 1, .int 2]).Fits := by
  have mail : World.solitary.BuiltMail := nofun
  have loaded : Arises (.standard .opened 0) _ :=
    .load (.fresh {}) (rfl : Reader.parse (ascii "(+ 1 2)") = .ok _) ⟨.nil, nofun⟩ rfl
  have arises := (((loaded.dispatch (s := []) mail rfl).dispatch (s := []) mail rfl).dispatch
    (s := []) mail rfl).dispatch (s := []) mail rfl
  obtain ⟨range, -, all⟩ := reads_in_range .opened 0 arises
  obtain ⟨next, found, -, fits⟩ := (all _ World.solitary [] mail).1
  obtain rfl := Except.ok.inj found
  exact ⟨_, arises, rfl, range, _, _, rfl, rfl, fits _ rfl _ (List.mem_singleton_self _)⟩

end ProcLisp.Indexed
