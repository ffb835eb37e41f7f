import Mathlib.Data.List.Forall2
import ProcLisp.Machine.Scripted
import ProcLisp.Proofs.Machine.Causes
import ProcLisp.Proofs.Machine.Elision

/-!
# Sessions with and without redundant restore frames

In a session a machine runs, and gets a message whenever it waits for one. The plain machine now and
then takes a frame off that the eliding one does not have; apart from that both do the same.
-/

namespace ProcLisp

namespace Machine

variable {σ : Type} {cfg : Config} {world : World σ} {alike : σ → σ → Prop} {m p : Machine}
  {s t : σ} {bound : Nat}

def Overflowed (bound : Nat) (m : Machine) : Prop :=
  m.control = .terminated (.failed (.stackOverflow bound))

theorem not_overflowed (none : m.ending?.isNone) : ¬ Overflowed bound m := by
  intro overflowed
  unfold ending? at none
  rw [show m.control = _ from overflowed] at none
  cases none

/-! ### One dispatch -/

theorem Mirrors.counted (mirrors : Mirrors m p) (a b : UInt64) :
    Mirrors { m with reductions := a } { p with reductions := b } :=
  ⟨⟨mirrors.env, mirrors.val, mirrors.supply, mirrors.stack⟩, mirrors.control⟩

theorem Beside.after {d e : Dispatch σ} (beside : Beside m p) (tally : Tally bound alike d e) :
    Overflowed bound (p.after e) ∨ Mirrors (m.after d) (p.after e) := by
  rcases tally.machine with overflow | agree
  · left
    simp [Overflowed, Machine.after, overflow, Machine.fail]
  · right
    unfold Machine.after
    generalize d.machine = x, e.machine = y at agree
    cases agree with
    | ok mirrors => exact mirrors.counted _ _
    | error f => exact (beside.fail f).counted _ _

/-- The plain machine takes off a frame that the other one does not have, or both do the same. -/
inductive Pace (cfg : Config) (world : World σ) (alike : σ → σ → Prop) (m : Machine) (s : σ)
    (p : Machine) (t : σ) (e : Dispatch σ) : Prop
  | alone (state : e.state = t) (charge : e.charge = 0) (same : Matches m (p.after e))
      (lower : (p.after e).stack.depth < p.stack.depth)
  | both {d : Dispatch σ} (next : m.next? cfg.eliding world s = some d)
      (charge : d.charge = e.charge) (state : alike d.state e.state)
      (after : Overflowed cfg.maxFrames (p.after e) ∨ Mirrors (m.after d) (p.after e))

theorem Matches.pace (same : Matches m p) (respects : world.Respects alike) (states : alike s t)
    {e : Dispatch σ} (next : p.next? cfg.plain world t = some e) :
    Pace cfg world alike m s p t e := by
  unfold next? at next
  split at next
  · rename_i expr control
    obtain rfl := Option.some.inj next
    have control' : m.control = .eval expr := same.control.trans control
    have mirrors : Mirrors m p := same.mirrors (by rw [control']; nofun)
    have tally : Tally cfg.maxFrames alike (m.evalStep cfg.eliding world expr s)
        (p.evalStep cfg.plain world expr t) := mirrors.toBeside.evalStep respects states expr
    refine .both ?_ tally.charge tally.state (mirrors.toBeside.after tally)
    simp [next?, control']
  · rename_i control
    have control' : m.control = .returning := same.control.trans control
    split at next
    · rename_i k rest popped
      obtain rfl := Option.some.inj next
      have frames := frames_of_pop popped
      have elided := same.stack
      rw [frames] at elided
      generalize top : m.stack.frames = fs at elided
      cases elided with
      | drop saved elided =>
        refine .alone rfl rfl ⟨control', .inr ⟨control', _, _, top⟩, same.val, same.supply, ?_⟩ ?_
        · rw [top]
          exact elided
        · have depth := congrArg List.length frames
          rw [← p.stack.depth_eq, List.length_cons, ← rest.depth_eq] at depth
          rw [depth]
          exact Nat.lt_succ_self _
      | keep k below =>
        obtain ⟨rest', popped'⟩ := pop_of_frames top
        have frames' := frames_of_pop popped'
        rw [top] at frames'
        obtain rfl := (List.cons.inj frames').2
        have next' : m.next? cfg.eliding world s = some
            ({ m with stack := rest' }.resumeFrame cfg.eliding world k m.val m.env s) := by
          simp [next?, control', popped']
        -- a restore frame sets the environment, and before any other one it is the same
        by_cases restores : ∃ saved, k = .restore saved
        · obtain ⟨saved, rfl⟩ := restores
          refine .both next' rfl states (.inr ?_)
          exact ⟨⟨rfl, same.val, same.supply, below⟩, rfl⟩
        · have mirrors : Mirrors m p := same.mirrors (by
            rintro - ⟨saved, others, covered⟩
            exact restores ⟨saved, (List.cons.inj (top.symm.trans covered)).1⟩)
          have beside : Beside { m with stack := rest' } { p with stack := rest } :=
            ⟨mirrors.env, same.val, same.supply, below⟩
          have tally : Tally cfg.maxFrames alike
              ({ m with stack := rest' }.resumeFrame cfg.eliding world k m.val m.env s)
              ({ p with stack := rest }.resumeFrame cfg.plain world k m.val m.env t) :=
            beside.resumeFrame respects states k m.val m.env
          rw [mirrors.val, mirrors.env] at tally next'
          exact .both next' tally.charge tally.state (mirrors.toBeside.after tally)
    · simp at next
  · simp at next

theorem Matches.next_none (same : Matches m p) (last : p.next? cfg.plain world t = none) :
    m.next? cfg.eliding world s = none := by
  unfold next? at last ⊢
  rw [same.control]
  split at last
  · simp at last
  · split at last
    · simp at last
    · rename_i popped
      have elided := same.stack
      rw [pop_eq_none_iff.mp popped] at elided
      generalize top : m.stack.frames = fs at elided
      cases elided
      rw [pop_eq_none_iff.mpr top]
  · rfl

/-! ### Runs -/

/-- What is left of two runs that stopped: the same, but for frames that are left out. -/
structure Concludes (alike : σ → σ → Prop) (q r : Progress σ) : Prop where
  status : q.status = r.status
  machine : Mirrors q.machine r.machine
  state : alike q.state r.state

theorem Matches.concludes (same : Matches m p) (states : alike s t)
    (last : p.next? cfg.plain world t = none) : Concludes alike (stop (m, s)) (stop (p, t)) := by
  have mirrors : Mirrors m p := same.mirrors (by
    rintro returning ⟨kept, rest, top⟩
    obtain ⟨below, popped⟩ := pop_of_frames top
    have next := same.next_none (s := s) last
    simp [next?, returning, popped] at next)
  unfold stop halted?
  rw [mirrors.control]
  cases p.control with
  | idle => exact ⟨rfl, mirrors.toBeside.fail _, states⟩
  | waiting | done | terminated => exact ⟨rfl, mirrors, states⟩
  | eval | returning =>
    exact ⟨rfl, ⟨⟨mirrors.env, same.val, same.supply, same.stack⟩, rfl⟩, states⟩

theorem run_last {budget : Nat} (last : m.next? cfg world s = none)
    (room : m.halted?.isSome ∨ 0 < budget) : m.run cfg world budget s = stop (m, s) := by
  cases halted : m.halted? with
  | some h =>
    have halts : m.halted?.isSome := by simp [halted]
    rw [run, runFor_halted halts, pause_of_halted halts]
  | none =>
    have positive : 0 < budget := by simpa [halted] using room
    obtain ⟨budget, rfl⟩ : ∃ b, budget = b + 1 := ⟨budget - 1, by omega⟩
    rw [run, runFor_none halted last]

theorem run_overflowed (overflowed : Overflowed bound p) (cfg : Config) (world : World σ)
    (budget : Nat) (t : σ) : p.run cfg world budget t = ⟨.terminated, p, t⟩ := by
  have halted : p.halted? = some (.terminated, p) := by
    unfold halted?
    rw [show p.control = _ from overflowed]
  have halts : p.halted?.isSome := by simp [halted]
  rw [run_last (next?_of_halted halts) (.inl halts)]
  simp [stop, halted]

/-- Where the plain machine stops with its budget, so does the eliding one, which may have more. -/
theorem Matches.run (respects : world.Respects alike) {budget budget' : Nat}
    (enough : budget ≤ budget') (same : Matches m p) (states : alike s t)
    (stopped : (p.run cfg.plain world budget t).status ≠ .yielded)
    (fits : ¬ Overflowed cfg.maxFrames (p.run cfg.plain world budget t).machine) :
    Concludes alike (m.run cfg.eliding world budget' s) (p.run cfg.plain world budget t) := by
  -- a frame that only the plain machine takes off costs that one dispatch of its budget
  induction budget using Nat.strongRecOn generalizing budget' m p s t with
  | _ budget ih =>
    cases next : p.next? cfg.plain world t with
    | none =>
      have last : m.next? cfg.eliding world s = none := same.next_none next
      have room : p.halted?.isSome ∨ 0 < budget := by
        by_contra none
        rw [not_or, Option.not_isSome_iff_eq_none] at none
        obtain rfl : budget = 0 := by omega
        rw [Machine.run, runFor_zero, pause_of_going none.1] at stopped
        exact stopped rfl
      have room' : m.halted?.isSome ∨ 0 < budget' := by
        refine room.imp (fun halts => ?_) fun positive => by omega
        by_contra going
        rw [Option.not_isSome_iff_eq_none] at going
        simp [halted?_congr same.control.symm going] at halts
      rw [run_last next room, run_last last room']
      exact same.concludes states next
    | some e =>
      have going : p.halted? = none := by
        by_contra halted
        rw [next?_of_halted (Option.isSome_iff_ne_none.mpr halted)] at next
        cases next
      cases budget with
      | zero =>
        rw [Machine.run, runFor_zero, pause_of_going going] at stopped
        exact absurd rfl stopped
      | succ budget =>
        rw [run_some next] at stopped fits ⊢
        cases same.pace respects states next with
        | alone state charge same lower =>
          rw [state, charge] at stopped fits ⊢
          exact ih budget (by omega) (by omega) same states stopped fits
        | both next' charge state after =>
          rename_i d
          rcases after with overflowed | mirrors
          · rw [run_overflowed overflowed] at fits
            exact absurd overflowed fits
          · obtain ⟨budget', rfl⟩ : ∃ b, budget' = b + 1 := ⟨budget' - 1, by omega⟩
            rw [run_some next', charge]
            exact ih _ (by omega) (by omega) mirrors.matches state stopped fits

/-! ### Sessions -/

/-- Runs a machine, and hands it the next message each time it waits. -/
def attend (cfg : Config) (world : World σ) (budget : Nat) :
    List Value → Machine → σ → Progress σ
  | [], m, s => m.run cfg world budget s
  | msg :: rest, m, s =>
    let r := m.run cfg world budget s
    match r.machine.resume msg with
    | .ok m => attend cfg world budget rest m r.state
    | .error _ => r

/-- The points that a session comes to, with the messages that were handed over before. -/
inductive Visits (cfg : Config) (world : World σ) (start : Machine × σ) :
    List Value → Machine × σ → Prop
  | start : Visits cfg world start [] start
  | dispatch {messages : List Value} {c c' : Machine × σ}
      (visited : Visits cfg world start messages c) (next : advance? cfg world c = some c') :
      Visits cfg world start messages c'
  | message {messages : List Value} {c : Machine × σ} {msg : Value} {m : Machine}
      (visited : Visits cfg world start messages c) (handed : c.1.resume msg = .ok m) :
      Visits cfg world start (messages ++ [msg]) (m, c.2)

theorem Matches.resume (same : Matches m p) (msg : Value) :
    Agree Matches (m.resume msg) (p.resume msg) := by
  unfold Machine.resume
  rw [same.control]
  split
  · rename_i waiting
    have mirrors := same.mirrors (by rw [same.control, waiting]; nofun)
    exact .ok ⟨rfl, .inl mirrors.env, rfl, same.supply, same.stack⟩
  · exact .error _

theorem control_of_resume {msg : Value} (handed : p.resume msg = .ok m) : p.control = .waiting := by
  unfold Machine.resume at handed
  split at handed
  · assumption
  · cases handed

theorem run_stopped_of_waiting {budget : Nat}
    (waiting : (m.run cfg world budget s).machine.control = .waiting) :
    (m.run cfg world budget s).status ≠ .yielded := by
  obtain ⟨n, c, -, ⟨same, going, -⟩ | ⟨same, -⟩⟩ := run_cases cfg world budget m s
  · rw [same] at waiting
    simp [halted?, show c.1.control = _ from waiting] at going
  · rw [same]
    exact stop_status c

theorem Matches.attend (respects : world.Respects alike) {budget : Nat} {messages : List Value}
    (same : Matches m p) (states : alike s t)
    (stopped : (attend cfg.plain world budget messages p t).status ≠ .yielded)
    (fits : ¬ Overflowed cfg.maxFrames (attend cfg.plain world budget messages p t).machine) :
    Concludes alike (attend cfg.eliding world budget messages m s)
      (attend cfg.plain world budget messages p t) := by
  induction messages generalizing m p s t with
  | nil => exact same.run respects (Nat.le_refl _) states stopped fits
  | cons msg rest ih =>
    unfold Machine.attend at stopped fits ⊢
    dsimp only at stopped fits ⊢
    cases handed : (p.run cfg.plain world budget t).machine.resume msg with
    | error e =>
      rw [handed] at stopped fits
      have first := same.run respects (Nat.le_refl budget) states stopped fits
      have resumed := first.machine.matches.resume msg
      rw [handed] at resumed
      rw [resumed.eq_error]
      exact first
    | ok p' =>
      rw [handed] at stopped fits
      have waiting := control_of_resume handed
      have first := same.run respects (Nat.le_refl budget) states (run_stopped_of_waiting waiting)
        (by simp [Overflowed, waiting])
      have resumed := first.machine.matches.resume msg
      rw [handed] at resumed
      obtain ⟨m', handed', same'⟩ := resumed.exists_ok
      rw [handed']
      exact ih same' first.state stopped fits

/-! ### Corresponding points -/

theorem not_next_of_overflowed (overflowed : Overflowed bound p) (cfg : Config) (world : World σ)
    (t : σ) : p.next? cfg world t = none := by
  unfold next?
  rw [show p.control = _ from overflowed]

/-- Every point of the plain machine that did not overflow corresponds to one of the eliding one. -/
theorem Matches.visits (respects : world.Respects alike) (same : Matches m p) (states : alike s t)
    {messages : List Value} {c : Machine × σ}
    (visited : Visits cfg.plain world (p, t) messages c) :
    Overflowed cfg.maxFrames c.1 ∨
      ∃ c', Visits cfg.eliding world (m, s) messages c' ∧ Matches c'.1 c.1 ∧ alike c'.2 c.2 := by
  induction visited with
  | start => exact .inr ⟨(m, s), .start, same, states⟩
  | dispatch visited next ih =>
    obtain ⟨e, found, rfl⟩ := Option.map_eq_some_iff.mp next
    rcases ih with overflowed | ⟨c', visited', same, states⟩
    · rw [not_next_of_overflowed overflowed] at found
      cases found
    · cases same.pace respects states found with
      | alone state charge same lower =>
        exact .inr ⟨c', visited', same, by rw [land, state]; exact states⟩
      | both next' charge state after =>
        rename_i d
        refine after.imp id fun mirrors => ⟨c'.1.land d, ?_, mirrors.matches, state⟩
        exact visited'.dispatch (by simp [advance?, next'])
  | message visited handed ih =>
    rename_i msg _
    rcases ih with overflowed | ⟨c', visited', same, states⟩
    · have waiting := control_of_resume handed
      rw [show _ = _ from overflowed] at waiting
      cases waiting
    · have resumed := same.resume msg
      rw [handed] at resumed
      obtain ⟨m', handed', same'⟩ := resumed.exists_ok
      exact .inr ⟨(m', c'.2), visited'.message handed', same', states⟩

/-- The plain machine takes off what the other one does not have, and then does what that does. -/
theorem Matches.catchUp (respects : world.Respects alike) (same : Matches m p) (states : alike s t)
    {start : Machine × σ} {messages : List Value}
    (visited : Visits cfg.plain world start messages (p, t)) {d : Dispatch σ}
    (next : m.next? cfg.eliding world s = some d) :
    ∃ c, Visits cfg.plain world start messages c ∧
      (Overflowed cfg.maxFrames c.1 ∨ Matches (m.after d) c.1 ∧ alike d.state c.2) := by
  -- the stack gets lower with each frame that only the plain machine has
  induction depth : p.stack.depth using Nat.strongRecOn generalizing p t with
  | _ n ih =>
    cases found : p.next? cfg.plain world t with
    | none =>
      rw [same.next_none found] at next
      cases next
    | some e =>
      have further : Visits cfg.plain world start messages (p.land e) :=
        visited.dispatch (by simp [advance?, found])
      cases same.pace respects states found with
      | alone state charge same lower =>
        rw [land, state] at further
        exact ih _ (by omega) same states further rfl
      | both next' charge state after =>
        obtain rfl := Option.some.inj (next.symm.trans next')
        exact ⟨p.land e, further, after.imp id fun mirrors => ⟨mirrors.matches, state⟩⟩

/-- Every point of the eliding machine corresponds to one of the plain machine, unless that
overflows. -/
theorem Matches.visited (respects : world.Respects alike) (same : Matches m p) (states : alike s t)
    {messages : List Value} {c' : Machine × σ}
    (visited : Visits cfg.eliding world (m, s) messages c') :
    (∃ before c, Visits cfg.plain world (p, t) before c ∧ Overflowed cfg.maxFrames c.1) ∨
      ∃ c, Visits cfg.plain world (p, t) messages c ∧ Matches c'.1 c.1 ∧ alike c'.2 c.2 := by
  induction visited with
  | start => exact .inr ⟨(p, t), .start, same, states⟩
  | dispatch visited next ih =>
    obtain ⟨d, found, rfl⟩ := Option.map_eq_some_iff.mp next
    refine ih.elim .inl fun ⟨c, reached, same, states⟩ => ?_
    obtain ⟨c₁, reached₁, overflowed | counterpart⟩ := same.catchUp respects states reached found
    · exact .inl ⟨_, c₁, reached₁, overflowed⟩
    · exact .inr ⟨c₁, reached₁, counterpart⟩
  | message visited handed ih =>
    rename_i msg _
    refine ih.elim .inl fun ⟨c, reached, same, states⟩ => .inr ?_
    have resumed := same.resume msg
    rw [handed] at resumed
    obtain ⟨p', handed', same'⟩ := resumed.exists_ok_right
    exact ⟨(p', c.2), reached.message handed', same', states⟩

end Machine

/-! ### What a session shows -/

/-- An act that changed something outside a machine. -/
inductive Deed where
  | printed (text : Bytes)
  | sent (receiver : Pid) (msg : Value)
  | received (msg : Value)
  | forked (birth : Birth) (child : Machine) (pid : Pid)
  | watched (target : Pid)

open Machine

/-- The same act, but for frames that a child leaves out. -/
inductive Deed.Alike : Deed → Deed → Prop
  | same (d : Deed) : Alike d d
  | forked (birth : Birth) {m p : Machine} (children : Matches m p) (pid : Pid) :
      Alike (.forked birth m pid) (.forked birth p pid)

variable {σ : Type} {world : World σ} {alike : σ → σ → Prop}

/-- A world that keeps a record of what is done in it, newest first. -/
def World.recording (world : World σ) : World (σ × List Deed) where
  print text s := (world.print text s.1, .printed text :: s.2)
  host := world.host.map fun host =>
    { self := host.self
      send := fun receiver msg s =>
        (host.send receiver msg s.1).map fun next => (next, .sent receiver msg :: s.2)
      receive := fun s =>
        (host.receive s.1).map fun (msg, next) => (msg, next, .received msg :: s.2)
      fork := fun birth child s =>
        (host.fork birth child s.1).map fun (pid, next) =>
          (pid, next, .forked birth child pid :: s.2)
      watch := fun target s =>
        (host.watch target s.1).map fun next => (next, .watched target :: s.2) }

def AlikeInDeed (alike : σ → σ → Prop) (a b : σ × List Deed) : Prop :=
  alike a.1 b.1 ∧ List.Forall₂ Deed.Alike a.2 b.2

theorem World.Respects.recording (respects : world.Respects alike) :
    world.recording.Respects (AlikeInDeed alike) where
  refl s := ⟨respects.refl s.1, List.forall₂_same.mpr fun d _ => .same d⟩
  print text := fun ⟨states, deeds⟩ => ⟨respects.print text states, .cons (.same _) deeds⟩
  send receiver msg := by
    rintro acting ⟨states, deeds⟩
    obtain ⟨host, found, rfl⟩ := Option.map_eq_some_iff.mp acting
    exact (respects.send receiver msg found states).map fun next =>
      ⟨next, .cons (.same _) deeds⟩
  receive := by
    rintro _ s t acting ⟨states, deeds⟩
    obtain ⟨host, found, rfl⟩ := Option.map_eq_some_iff.mp acting
    have received := respects.receive found states
    dsimp only
    generalize host.receive s.1 = x, host.receive t.1 = y at received
    cases received with
    | none => exact .none
    | some related =>
      rename_i a b
      obtain ⟨msg, s'⟩ := a
      obtain ⟨msg', t'⟩ := b
      obtain ⟨rfl, next⟩ := related
      exact .some ⟨rfl, next, .cons (.same _) deeds⟩
  fork birth := by
    rintro acting children ⟨states, deeds⟩
    obtain ⟨host, found, rfl⟩ := Option.map_eq_some_iff.mp acting
    refine (respects.fork birth found children states).map ?_
    rintro ⟨pid, s'⟩ ⟨pid', t'⟩ ⟨rfl, next⟩
    exact ⟨rfl, next, .cons (.forked birth children pid) deeds⟩
  watch target := by
    rintro acting ⟨states, deeds⟩
    obtain ⟨host, found, rfl⟩ := Option.map_eq_some_iff.mp acting
    exact (respects.watch target found states).map fun next => ⟨next, .cons (.same _) deeds⟩

/-- Sessions of a machine that leaves out redundant restore frames, and of the plain one. -/
structure Invisible (cfg : Config) (world : World σ) (alike : σ → σ → Prop) (m p : Machine)
    (s t : σ) : Prop where
  /-- If the plain machine stops and did not overflow, the other one stops in the same way. -/
  ends : ∀ (budget : Nat) (messages : List Value),
    let real := attend cfg.eliding world.recording budget messages m (s, [])
    let plain := attend cfg.plain world.recording budget messages p (t, [])
    plain.status ≠ .yielded → ¬ Overflowed cfg.maxFrames plain.machine →
      real.status = plain.status ∧ real.machine.val = plain.machine.val ∧
        real.machine.env = plain.machine.env ∧ real.machine.ending? = plain.machine.ending? ∧
        AlikeInDeed alike real.state plain.state
  /-- What the plain machine comes to, the other one does with no more frames. -/
  points : ∀ (messages : List Value) (c : Machine × σ × List Deed),
    Visits cfg.plain world.recording (p, t, []) messages c → ¬ Overflowed cfg.maxFrames c.1 →
      ∃ c', Visits cfg.eliding world.recording (m, s, []) messages c' ∧ Matches c'.1 c.1 ∧
        AlikeInDeed alike c'.2 c.2 ∧ c'.1.stack.depth ≤ c.1.stack.depth
  /-- Nothing else happens, unless the plain machine overflows. -/
  others : (∀ messages c, Visits cfg.plain world.recording (p, t, []) messages c →
      ¬ Overflowed cfg.maxFrames c.1) →
    ∀ messages c', Visits cfg.eliding world.recording (m, s, []) messages c' →
      ∃ c, Visits cfg.plain world.recording (p, t, []) messages c ∧ Matches c'.1 c.1 ∧
        AlikeInDeed alike c'.2 c.2

theorem Machine.Matches.invisible {cfg : Config} {m p : Machine} {s t : σ} (same : Matches m p)
    (respects : world.Respects alike) (states : alike s t) : Invisible cfg world alike m p s t := by
  have start : AlikeInDeed alike (s, []) (t, []) := ⟨states, .nil⟩
  constructor
  · intro budget messages real plain stopped fits
    have ended := same.attend respects.recording start stopped fits
    refine ⟨ended.status, ended.machine.val, ended.machine.env, ?_, ended.state⟩
    unfold ending?
    rw [ended.machine.control]
  · intro messages c visited fits
    rcases same.visits respects.recording start visited with
      overflowed | ⟨c', visited', same, states⟩
    · exact absurd overflowed fits
    · exact ⟨c', visited', same, states, same.depth_le⟩
  · intro fits messages c' visited
    rcases same.visited respects.recording start visited with
      ⟨before, c, reached, overflowed⟩ | found
    · exact absurd overflowed (fits before c reached)
    · exact found

/-- Leaving out redundant restore frames does not show: not in a session of any program, and not in
one of any child that it forks. -/
theorem elision_is_invisible (cfg : Config) (world : World σ) (respects : world.Respects alike) :
    (∀ (exprs : List Value) (env : Env) (supply : Supply) (s : σ),
      let m := ({ supply } : Machine).load exprs env
      Invisible cfg world alike m m s s) ∧
    ∀ (m p : Machine) (s t : σ), Matches m p → alike s t → Invisible cfg world alike m p s t :=
  ⟨fun _ _ _ s => (Matches.refl _).invisible respects (respects.refl s),
    fun _ _ _ _ same states => same.invisible respects states⟩

/-! ### A scripted host -/

/-- The same records, but for frames that children leave out. -/
def Script.Alike (s t : Script) : Prop :=
  ∃ children, List.Forall₂ Matches s.children children ∧ t = { s with children }

theorem Machine.Matches.adopt {m p : Machine} (same : Matches m p) (pid : Pid) :
    Matches (m.adopt pid) (p.adopt pid) := ⟨same.control, same.env, same.val, rfl, same.stack⟩

theorem Script.host_eq {self : Option Pid} {host : Host Script}
    (acting : (Script.world self).host = some host) : ∃ pid, host = Script.host pid := by
  obtain ⟨pid, -, rfl⟩ := Option.map_eq_some_iff.mp acting
  exact ⟨pid, rfl⟩

theorem Script.respects (self : Option Pid) : (Script.world self).Respects Script.Alike where
  refl s := ⟨s.children, List.forall₂_same.mpr fun m _ => .refl m, rfl⟩
  print text := by
    rintro ⟨children, same, rfl⟩
    exact ⟨children, same, rfl⟩
  send {_ s _} receiver msg := by
    rintro acting ⟨children, same, rfl⟩
    obtain ⟨pid, rfl⟩ := Script.host_eq acting
    have refusal : ({ s with children } : Script).refused? .send = s.refused? .send := rfl
    dsimp only [Script.host, Script.send]
    rw [refusal]
    cases s.refused? .send with
    | some e => exact .error e
    | none => exact .ok ⟨children, same, rfl⟩
  receive {_ s _} := by
    rintro acting ⟨children, same, rfl⟩
    obtain ⟨pid, rfl⟩ := Script.host_eq acting
    dsimp only [Script.host, Script.receive]
    cases s.inbox with
    | nil => exact .none
    | cons msg rest => exact .some ⟨rfl, children, same, rfl⟩
  fork {_ s _ _ _} birth := by
    rintro acting child ⟨children, same, rfl⟩
    obtain ⟨pid, rfl⟩ := Script.host_eq acting
    have refusal : ({ s with children } : Script).refused? .fork = s.refused? .fork := rfl
    dsimp only [Script.host, Script.fork]
    rw [refusal]
    cases s.refused? .fork with
    | some e => exact .error e
    | none => exact .ok ⟨rfl, _, .cons (child.adopt _) same, rfl⟩
  watch {_ s _} target := by
    rintro acting ⟨children, same, rfl⟩
    obtain ⟨pid, rfl⟩ := Script.host_eq acting
    have refusal : ({ s with children } : Script).refused? .watch = s.refused? .watch := rfl
    dsimp only [Script.host, Script.watch]
    rw [refusal]
    cases s.refused? .watch with
    | some e => exact .error e
    | none => exact .ok ⟨children, same, rfl⟩

/-- A call whose body forks and waits in two scopes, `(let ((y (fork))) (let ((z y)) (wait)))`. The
eliding machine needs one restore frame for the call and both of them, and so does the child. -/
theorem elision_is_invisible_fork_in_call :
    let sym (s : String) : Value := .sym (ascii s)
    let inner : Value := .list [sym "let", .list [.list [sym "z", sym "y"]], .list [sym "wait"]]
    let outer : Value := .list [sym "let", .list [.list [sym "y", .list [sym "fork"]]], inner]
    let call : Value := .list [.list [sym "fn", .list [sym "x"], outer], .int 7]
    let cfg : Config := { table := [], maxFrames := 5 }
    let world := (Script.world (some (.issued 1))).recording
    let m := ({} : Machine).load [call] []
    let real := attend cfg.eliding world 30 [.int 8] m ({}, [])
    let plain := attend cfg.plain world 30 [.int 8] m ({}, [])
    plain.status = .done ∧ real.state.1.children.map (·.stack.depth) = [2] ∧
      plain.state.1.children.map (·.stack.depth) = [3] ∧
      real.status = plain.status ∧ real.machine.val = plain.machine.val ∧
      real.machine.env = plain.machine.env ∧ real.machine.ending? = plain.machine.ending? ∧
      AlikeInDeed Script.Alike real.state plain.state := by
  intro sym inner outer call cfg world m real plain
  have stopped : plain.status = .done := by decide +kernel
  have running : plain.status ≠ .yielded := by decide +kernel
  have fits : ¬ Overflowed cfg.maxFrames plain.machine := not_overflowed (by decide +kernel)
  have two : real.state.1.children.map (·.stack.depth) = [2] := by decide +kernel
  have three : plain.state.1.children.map (·.stack.depth) = [3] := by decide +kernel
  have respects := Script.respects (some (.issued 1))
  have invisible :=
    (elision_is_invisible cfg (Script.world (some (.issued 1))) respects).1 [call] [] {} {}
  refine ⟨stopped, two, three, ?_⟩
  -- the sessions are spelled out, or else they would be run to compare them
  dsimp only [real, plain, m, world] at running fits ⊢
  exact invisible.ends 30 [.int 8] running fits

end ProcLisp
