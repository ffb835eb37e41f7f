import ProcLisp.Proofs.Machine.Correspondence
import ProcLisp.Proofs.Machine.Solitary
import ProcLisp.Proofs.Scheduler.Undisturbed

/-!
# Processes evaluate programs

The process of a program that never gets to a primitive passes the same points as the evaluation of
that program outside of any process, however it is cut into slices and whatever goes on beside it.
It never waits, so every slice brings it closer to its end, and its answer is the outcome of the
evaluation.
-/

namespace ProcLisp

/-- What an execution answers for an outcome that a program can come to. -/
def Machine.Outcome.answer? : Machine.Outcome → Option Scheduler.Answer
  | .value v env => some (.value v env)
  | .failed f => some (.failed f)
  | .error _ => none

namespace Scheduler

open Machine (Passes Independent Sober iterate advance?)

variable {cfg : Machine.Config} {start : Machine} {s s' : Scheduler} {p r : Pid}

theorem stop_machine_congr {σ τ : Type} {m : Machine} (s : σ) (t : τ) :
    (Machine.stop (m, s)).machine = (Machine.stop (m, t)).machine := by
  unfold Machine.stop
  split <;> simp_all

/-- Where the process `p` of a program that starts with `start` is: on its way, or at its end. -/
inductive Stage (cfg : Machine.Config) (start : Machine) (p : Pid) (s : Scheduler) : Prop where
  | going {q : Process} {n : Nat} (there : s.procs[p]? = some q) (ready : q.state = .ready)
      (live : q.machine.halted? = none) (passes : Passes cfg start n q.machine)
  | ended {m : Machine} {n : Nat} {t : Transcript}
      (reached : iterate cfg .solitary n (start, []) = some (m, t))
      (stuck : advance? cfg .solitary (m, t) = none)
      (gone : s.retired[p]? = some (Exit.ofMachine (Machine.stop (m, t)).machine))

theorem Stage.undisturbed (stage : Stage cfg start p s) (kept : Undisturbed p s s') :
    Stage cfg start p s' := by
  cases stage with
  | going there ready live passes =>
    obtain ⟨q, there', state, machine⟩ := kept.process there (by simp [ready])
    exact .going there' (state.trans ready) (by rwa [machine]) (by rwa [machine])
  | ended reached stuck gone => exact .ended reached stuck (kept.exit.trans gone)

/-! ### Its own slices -/

theorem blocked_of_stop {c : Machine × Scheduler} (blocked : (Machine.stop c).status = .blocked) :
    c.1.control = .waiting := by
  unfold Machine.stop Machine.halted? at blocked
  cases control : c.1.control <;> simp_all

/-- In a slice of its own the process gets further, or comes to its end. -/
theorem Sound.own_slice (sound : Sound .between s) (free : Independent cfg start)
    (sober : Sober start) (settings : s.machine = cfg) (positive : 0 < s.slice) {q : Process}
    {n : Nat} (there : s.procs[p]? = some q) (passes : Passes cfg start n q.machine)
    (stepped : s.step? = some (p, s')) :
    (∃ q' k, 0 < k ∧ s'.procs[p]? = some q' ∧ q'.state = .ready ∧ q'.machine.halted? = none ∧
      Passes cfg start (n + k) q'.machine) ∨
    ∃ m k t, iterate cfg .solitary k (start, []) = some (m, t) ∧
      advance? cfg .solitary (m, t) = none ∧
      s'.retired[p]? = some (Exit.ofMachine (Machine.stop (m, t)).machine) := by
  obtain ⟨rest, q₀, -, popped, there₀, -, ended⟩ := sound.step_cases stepped
  obtain rfl := Option.some.inj (there.symm.trans there₀)
  have ticked := sound.run_ticked q popped
  obtain ⟨k, c, reached, outcome⟩ :=
    Machine.run_cases s.machine (world p) s.slice q.machine (s.begin p rest)
  rw [settings] at reached
  have later := passes.iterate free reached
  rcases outcome with ⟨same, live, moved⟩ | ⟨same, stuck⟩
  · have yields : s.runFrom p rest q = ⟨.yielded, c.1, c.2⟩ := same
    rw [yields] at ended ticked
    left
    cases ended with
    | parked status => cases status
    | retired status => simp at status
    | yielded =>
      obtain ⟨q', there'⟩ := mem_procs.mp (steady_sound.present ticked)
      refine ⟨{ q' with machine := c.1, state := .ready }, k, moved positive, ?_, rfl, live, later⟩
      change (c.2.tick.update p _).procs[p]? = _
      rw [procs_update, if_pos rfl, there']
      rfl
  · have stops : s.runFrom p rest q = Machine.stop c := same
    rw [stops] at ended ticked
    right
    rw [settings] at stuck
    obtain ⟨t, passed, last⟩ := (later.advance free (world p) c.2).2 stuck
    refine ⟨c.1, n + k, t, passed, last, ?_⟩
    cases ended with
    | yielded status => exact absurd status (Machine.stop_status c)
    | parked status =>
      have waits := blocked_of_stop status
      rcases later.sober free sober with ⟨going, -⟩ | ⟨f, failed⟩
      · simp [Machine.halted?, waits] at going
      · simp [waits] at failed
    | retired _ there' =>
      rw [retired_of_retire ticked there', stop_machine_congr c.2 t]

/-- On its way under the given settings, or at its end. -/
structure Underway (cfg : Machine.Config) (start : Machine) (p : Pid) (s : Scheduler) : Prop where
  machine : s.machine = cfg
  positive : 0 < s.slice
  stage : Stage cfg start p s

theorem Underway.undisturbed (underway : Underway cfg start p s) (kept : Undisturbed p s s') :
    Underway cfg start p s' :=
  ⟨kept.settings.machine.trans underway.machine, by rw [kept.settings.slice]; exact underway.positive,
    underway.stage.undisturbed kept⟩

theorem Stage.of_eq (stage : Stage cfg start p s) (procs : s'.procs = s.procs)
    (retired : s'.retired = s.retired) : Stage cfg start p s' := by
  cases stage with
  | going there ready live passes => exact .going (by rw [procs]; exact there) ready live passes
  | ended reached stuck gone => exact .ended reached stuck (by rw [retired]; exact gone)

theorem Underway.slice (underway : Underway cfg start p s) (sound : Sound .between s)
    (free : Independent cfg start) (sober : Sober start) (stepped : s.step? = some (r, s')) :
    Underway cfg start p s' := by
  have settings := sound.slice_settings stepped
  refine ⟨settings.machine.trans underway.machine, by rw [settings.slice]; exact underway.positive, ?_⟩
  by_cases own : r = p
  · subst own
    cases underway.stage with
    | going there _ _ passes =>
      rcases sound.own_slice free sober underway.machine underway.positive there passes stepped with
        ⟨q, k, -, there', ready, live, later⟩ | ⟨m, k, t, reached, stuck, gone⟩
      · exact .going there' ready live later
      · exact .ended reached stuck gone
    | ended _ _ gone =>
      obtain ⟨rest, q, -, -, there, -, -⟩ := sound.step_cases stepped
      exact absurd (mem_retired gone) (sound.1.apart r (mem_procs.mpr ⟨q, there⟩))
  · obtain ⟨rest, -, kept⟩ := sound.other_slice stepped own
    have queued : Stage cfg start p { s with ready := rest } := underway.stage.of_eq rfl rfl
    exact queued.undisturbed kept

theorem lasting_settings (cfg : Machine.Config) :
    Lasting fun s => s.machine = cfg ∧ 0 < s.slice := by
  have kept : ∀ {s s' : Scheduler}, SameSettings s s' → s.machine = cfg ∧ 0 < s.slice →
      s'.machine = cfg ∧ 0 < s'.slice := by
    intro s s' same holds
    rw [same.machine, same.slice]
    exact holds
  constructor
  · intro s s' r sound holds stepped
    exact kept (sound.slice_settings stepped) holds
  · intro s s' r exprs env sound holds made
    exact kept (Undisturbed.born (p := r) sound.1 made).settings holds
  · intro s s' receiver msg sound holds sent
    exact kept (Undisturbed.changes (p := receiver) sound (changes_send sent)).settings holds
  · intro s s' r info sound holds told
    exact kept (Undisturbed.informed (p := r) sound told).settings holds
  · intro s s' sound holds done
    obtain ⟨attrs, rfl⟩ := start_ok done
    exact holds
  · intro s sound holds
    rcases stop_cases s with same | ⟨journal, -, same⟩
    · rw [same]
      exact holds
    · rw [same]
      exact holds

theorem lasting_underway (free : Independent cfg start) (sober : Sober start) (p : Pid) :
    Lasting (Underway cfg start p) where
  slice sound underway stepped := underway.slice sound free sober stepped
  spawn sound underway made := underway.undisturbed (.born sound.1 made)
  send sound underway sent := underway.undisturbed (.changes sound (changes_send sent))
  info sound underway told := underway.undisturbed (.informed sound told)
  start {s s'} sound underway done := by
    obtain ⟨attrs, rfl⟩ := start_ok done
    exact ⟨underway.machine, underway.positive, underway.stage.of_eq rfl rfl⟩
  stop {s} sound underway := by
    rcases stop_cases s with same | ⟨journal, -, same⟩
    · rw [same]
      exact underway
    · rw [same]
      exact ⟨underway.machine, underway.positive, underway.stage.of_eq rfl rfl⟩

/-! ### Its end -/

theorem Stage.gone_or_queued (stage : Stage cfg start p s) (sound : Sound .between s) :
    p ∈ s.retired ∨ p ∈ s.ready.toList := by
  cases stage with
  | going there ready =>
    right
    rcases sound.standing there with ⟨-, once, -⟩ | ⟨blocked, -⟩
    · exact List.count_pos_iff.mp (by omega)
    · simp [ready] at blocked
  | ended _ _ gone => exact .inl (mem_retired gone)

theorem gone_after_slice (stepped : s.step? = some (r, s'))
    (later : ∃ k, p ∈ (s'.serveAll (List.replicate k .slice)).retired) :
    ∃ k, p ∈ (s.serveAll (List.replicate k .slice)).retired := by
  obtain ⟨k, gone⟩ := later
  refine ⟨k + 1, ?_⟩
  rw [List.replicate_succ, serveAll_cons, serve_slice stepped]
  exact gone

/-- By induction on what is left to do, and for the same amount of it on the number of processes
before this one in the queue. -/
theorem Underway.ends {total : Nat} {c : Machine × Transcript} (free : Independent cfg start)
    (sober : Sober start) (last : iterate cfg .solitary total (start, []) = some c)
    (stuck : advance? cfg .solitary c = none) (left : Nat) {q : Process} {n : Nat}
    {before after : List Pid} (underway : Underway cfg start p s) (sound : Sound .between s)
    (running : s.stopped = false) (there : s.procs[p]? = some q)
    (passes : Passes cfg start n q.machine) (bound : total < n + left)
    (queue : s.ready.toList = before ++ p :: after) :
    ∃ k, p ∈ (s.serveAll (List.replicate k .slice)).retired := by
  induction left generalizing s q n before after with
  | zero =>
    obtain ⟨t, reached⟩ := passes
    have := (Machine.iterate_stuck last stuck reached).1
    omega
  | succ left more =>
    induction before generalizing s q after with
    | nil =>
      obtain ⟨rest, popped⟩ := pop?_of_toList queue
      obtain ⟨s', stepped⟩ := step?_of_pop running popped
      refine gone_after_slice stepped ?_
      have underway' := underway.slice sound free sober stepped
      have sound' : Sound .between s' := steady_sound.slice sound stepped
      rcases sound.own_slice free sober underway.machine underway.positive there passes stepped with
        ⟨q', k, positive, there', -, -, later⟩ | ⟨m, k, t, -, -, gone⟩
      · rcases underway'.stage.gone_or_queued sound' with gone | queued
        · exact ⟨0, gone⟩
        · obtain ⟨before, after, queue'⟩ := List.append_of_mem queued
          have running' := (sound.slice_settings stepped).stopped.trans running
          exact more underway' sound' running' there' later (by omega) queue'
      · exact ⟨0, mem_retired gone⟩
    | cons r before nearer =>
      have other : r ≠ p := by
        rintro rfl
        rcases sound.standing there with ⟨-, once, -⟩ | ⟨-, -, -, unqueued⟩
        · rw [queue] at once
          simp at once
        · exact unqueued (by simp [queue])
      obtain ⟨rest, popped⟩ := pop?_of_toList queue
      obtain ⟨s', stepped⟩ := step?_of_pop running popped
      refine gone_after_slice stepped ?_
      obtain ⟨rest', popped', kept⟩ := sound.other_slice stepped other
      have awake : q.state ≠ .blocked := by
        rcases sound.standing there with ⟨ready, -⟩ | ⟨-, -, -, unqueued⟩
        · simp [ready]
        · exact absurd (by simp [queue]) unqueued
      obtain ⟨q', there', -, machine⟩ := kept.process there awake
      obtain ⟨extra, grown⟩ := kept.ready
      have queue' : s'.ready.toList = before ++ p :: (after ++ extra) := by
        rw [Queue.toList_of_pop popped'] at queue
        simp [grown, (List.cons.inj queue).2]
      exact nearer (underway.slice sound free sober stepped) (steady_sound.slice sound stepped)
        ((sound.slice_settings stepped).stopped.trans running) there' (by rwa [machine]) queue'

theorem Sound.gate_closed_iff (sound : Sound .between s) (p : Pid) :
    (s.doneGates[p]? == some .closed) ↔ p ∈ s.retired := by
  rw [beq_iff_eq]
  constructor
  · intro closed
    by_cases issued : s.HasIssued p
    · rcases (sound.1.issued p).mp issued with there | gone
      · simp [sound.1.opened p (.inl there)] at closed
      · exact gone
    · simp [sound.1.ungated p issued] at closed
  · intro gone
    exact sound.1.closed p gone nofun

theorem serveAll_slices (stuck : s.step? = none) (k : Nat) :
    s.serveAll (List.replicate k .slice) = s := by
  induction k with
  | zero => rfl
  | succ k ih =>
    have same : s.serve .slice = s := by simp [serve, stuck]
    rw [List.replicate_succ, serveAll_cons, same, ih]

/-- Who waits for long enough sees the end of a process that comes to its end. -/
theorem Sound.gone_of_runUntil {k most done : Nat} (sound : Sound .between s)
    (gone : p ∈ (s.serveAll (List.replicate k .slice)).retired) (enough : k ≤ most) :
    p ∈ (runUntil (fun s => s.doneGates[p]? == some .closed) most done s).2.retired := by
  induction k generalizing s most done with
  | zero =>
    have closed := (sound.gate_closed_iff p).mpr gone
    cases most with
    | zero => exact gone
    | succ most =>
      unfold runUntil
      rw [if_pos closed]
      exact gone
  | succ k ih =>
    obtain ⟨most, rfl⟩ : ∃ j, most = j + 1 := ⟨most - 1, by omega⟩
    unfold runUntil
    split
    · rename_i closed
      exact (sound.gate_closed_iff p).mp closed
    rw [List.replicate_succ, serveAll_cons] at gone
    split
    · rename_i stuck
      rw [← serveAll_cons, ← List.replicate_succ, serveAll_slices stuck] at gone
      exact gone
    · rename_i r s' stepped
      rw [serve_slice stepped] at gone
      exact ih (steady_sound.slice sound stepped) gone (by omega)

/-! ### Its answer -/

/-- The exit of a machine that finished or failed is the outcome of its evaluation. -/
theorem answer_of_stop {c : Machine × Transcript} (sober : Sober c.1) (p : Pid) :
    ∃ answer, (∀ ev, Machine.conclude? c = some ev → ev.outcome.answer? = some answer) ∧
      ∀ s : Scheduler, s.retired[p]? = some (Exit.ofMachine (Machine.stop c).machine) →
        s.answer? p = some answer := by
  rcases sober with ⟨going, -⟩ | ⟨f, failed⟩
  · refine ⟨.value c.1.val c.1.env, fun ev concluded => ?_, fun s gone => ?_⟩
    · simp only [Machine.conclude?, Machine.stop, going, Machine.outcome?, Option.map_some,
        Option.some.injEq] at concluded
      rw [← concluded]
      rfl
    · simp only [Machine.stop, going, Exit.ofMachine, Machine.ending?] at gone
      simp [answer?, gone]
  · have halted : c.1.halted? = some (.terminated, c.1) := by simp [Machine.halted?, failed]
    refine ⟨.failed f, fun ev concluded => ?_, fun s gone => ?_⟩
    · simp only [Machine.conclude?, Machine.stop, halted, Machine.outcome?, Machine.ending?, failed,
        Option.bind_some, Ending.failure?, Option.map_some, Option.some.injEq] at concluded
      rw [← concluded]
      rfl
    · simp only [Machine.stop, halted, Exit.ofMachine, Machine.ending?, failed] at gone
      simp [answer?, gone]

theorem load_adopt (exprs : List Value) (env : Env) (p : Pid) :
    (({} : Machine).load exprs env).adopt p =
      ({ supply := ⟨p.val, 0⟩ } : Machine).load exprs env := by
  unfold Machine.load
  split <;> rfl

theorem Underway.spawned {exprs : List Value} {env : Env} {s₁ : Scheduler}
    (settings : s.machine = cfg ∧ 0 < s.slice) (made : s.spawn exprs env = .ok (p, s₁)) :
    Underway cfg (({ supply := ⟨p.val, 0⟩ } : Machine).load exprs env) p s₁ := by
  obtain ⟨same, changed⟩ := register_ok made
  have procs : s₁.procs = s.procs.insert p
      { parent := Pid.nil, machine := (({} : Machine).load exprs env).adopt p } := by
    rw [changed]
  rw [load_adopt] at procs
  have there := congrArg (·[p]?) procs
  simp only [Std.TreeMap.getElem?_insert_self] at there
  refine ⟨by rw [changed]; exact settings.1, by rw [changed]; exact settings.2,
    .going there rfl ?_ (n := 0) ⟨[], rfl⟩⟩
  simp only
  unfold Machine.load
  split <;> rfl

/-- The answer, if there is one, at any point of the way. -/
theorem Underway.answers {total : Nat} {c : Machine × Transcript} (underway : Underway cfg start p s)
    (sound : Sound .between s) (last : iterate cfg .solitary total (start, []) = some c)
    (stuck : advance? cfg .solitary c = none) :
    p ∉ s.retired ∨ s.retired[p]? = some (Exit.ofMachine (Machine.stop c).machine) := by
  cases underway.stage with
  | going there => exact .inl (sound.1.apart p (mem_procs.mpr ⟨_, there⟩))
  | ended reached stuck' gone =>
    rw [Machine.stuck_unique last stuck reached stuck']
    exact .inr gone

/-- A program whose evaluation gets to no primitive and comes to an outcome has the same outcome as
a process: whatever was there when it was spawned and whatever happens afterwards, there is no
answer for it or that one; and unless the scheduler is stopped, there is one after enough slices. -/
theorem execution_refines_evaluation (table : SyscallTable) (slice maxFrames : Int)
    (journal : Journal) (ownsJournal : Bool) (workers clock : Nat) (pids : Pid.Source)
    (before after : List Request) {exprs : List Value} {env : Env} {p : Pid} {s₁ : Scheduler}
    {rounds : Nat} {ev : Evaluation}
    (spawned : ((create table slice maxFrames journal ownsJournal workers clock pids).serveAll
      before).spawn exprs env = .ok (p, s₁))
    (free : Independent (.ofBound table maxFrames)
      (({ supply := ⟨p.val, 0⟩ } : Machine).load exprs env))
    (evaluated : evalProgram (.ofBound table maxFrames) rounds exprs env ⟨p.val, 0⟩ = some ev) :
    ∃ answer, ev.outcome.answer? = some answer ∧
      (∀ most, ((s₁.serveAll after).await p most).2.answer? p = none ∨
        ((s₁.serveAll after).await p most).2.answer? p = some answer) ∧
      ((s₁.serveAll after).stopped = false → ∃ enough, ∀ most, enough ≤ most →
        ((s₁.serveAll after).await p most).2.answer? p = some answer) := by
  have first := create_sound table slice maxFrames journal ownsJournal workers clock pids
  have sound := first.serveAll before
  have settings := (lasting_settings (.ofBound table maxFrames)).serveAll first
    ⟨rfl, by simp only [create]; split <;> (simp [defaultSlice]; try omega)⟩ before
  have sober := Machine.sober_load exprs env ⟨p.val, 0⟩
  have underway := Underway.spawned settings spawned
  have sound₁ : Sound .between s₁ := steady_sound.spawned sound spawned
  obtain ⟨total, c, last, stuck, concluded⟩ := Machine.stuck_of_evalProgram evaluated
  have passes : Passes (.ofBound table maxFrames) _ total c.1 := ⟨c.2, last⟩
  obtain ⟨answer, same, given⟩ := answer_of_stop (passes.sober free sober) p
  have lasting := lasting_underway free sober p
  have underway₂ := lasting.serveAll sound₁ underway after
  have sound₂ := sound₁.serveAll after
  have answers : ∀ most, p ∉ ((s₁.serveAll after).await p most).2.retired ∨
      ((s₁.serveAll after).await p most).2.answer? p = some answer := by
    intro most
    obtain ⟨k, slices⟩ := runUntil_eq (fun s => s.doneGates[p]? == some .closed) most 0
      (s₁.serveAll after)
    rw [await, slices]
    have later := lasting.serveAll sound₂ underway₂ (List.replicate k .slice)
    exact (later.answers (sound₂.serveAll _) last stuck).imp_right (given _)
  refine ⟨answer, same ev concluded, fun most => ?_, fun running => ?_⟩
  · refine (answers most).imp_left fun absent => ?_
    rw [Std.TreeMap.mem_iff_isSome_getElem?, Option.not_isSome_iff_eq_none] at absent
    simp [answer?, absent]
  · have ends : ∃ k, p ∈ ((s₁.serveAll after).serveAll (List.replicate k .slice)).retired := by
      rcases underway₂.stage.gone_or_queued sound₂ with gone | queued
      · exact ⟨0, gone⟩
      · obtain ⟨front, back, queue⟩ := List.append_of_mem queued
        cases underway₂.stage with
        | going there ready live passes =>
          exact underway₂.ends free sober last stuck (total + 1) sound₂ running there passes
            (by omega) queue
        | ended _ _ gone => exact ⟨0, mem_retired gone⟩
    obtain ⟨enough, gone⟩ := ends
    refine ⟨enough, fun most bound => (answers most).resolve_left ?_⟩
    exact not_not_intro (sound₂.gone_of_runUntil gone bound)

/-- In slices of one reduction, beside a process that waits and with mail that is never read. -/
theorem execution_refines_evaluation_beside_waiting :
    let wait : Value := .list [.sym (ascii "wait")]
    let call : Value := .list [.lambda ⟨0, 0⟩ [[0x78]] (.sym [0x78]) [], .int 5]
    let s := (create [] 1 100 {} true 1 0).serveAll [.spawn [wait] [], .slice]
    ∃ s₁ enough, s.spawn [call] [] = .ok (.issued 2, s₁) ∧ ∀ most, enough ≤ most →
      ((s₁.serveAll [.send (.issued 2) (.int 9)]).await (.issued 2) most).2.answer? (.issued 2) =
        some (.value (.int 5) []) := by
  intro wait call s
  have running : s.stopped = false := by decide +kernel
  have second : s.issued = 1 := by decide +kernel
  have named : s.pids.pid 2 = .issued 2 := by decide +kernel
  obtain ⟨s₁, spawned⟩ : ∃ s₁, s.spawn [call] [] = .ok (.issued 2, s₁) := by
    simp [spawn, register, running, second, named]
  have free : Independent (.ofBound [] 100)
      (({ supply := ⟨(Pid.issued 2).val, 0⟩ } : Machine).load [call] []) :=
    Machine.independent_of_check 10 rfl
  let done : Machine := { control := .returning, val := .int 5, reductions := 7,
                          supply := ⟨(Pid.issued 2).val, 0⟩ }
  have reached : iterate (.ofBound [] 100) .solitary 7
      (({ supply := ⟨(Pid.issued 2).val, 0⟩ } : Machine).load [call] [], []) = some (done, []) := rfl
  obtain ⟨rounds, evaluated⟩ := Machine.evalProgram_of_stuck reached rfl rfl
  obtain ⟨answer, same, -, ends⟩ := execution_refines_evaluation [] 1 100 {} true 1 0 .counting
    [.spawn [wait] [], .slice] [.send (.issued 2) (.int 9)] spawned free evaluated
  obtain rfl := Option.some.inj same
  have going : (s₁.serveAll [.send (.issued 2) (.int 9)]).stopped = false := by
    have served : s₁ = s.serve (.spawn [call] []) := by simp only [serve, spawned]
    rw [served]
    decide +kernel
  obtain ⟨enough, answers⟩ := ends going
  exact ⟨s₁, enough, spawned, answers⟩

end Scheduler
end ProcLisp
