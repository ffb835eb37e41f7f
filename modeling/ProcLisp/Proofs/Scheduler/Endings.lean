import Mathlib.Data.List.Induction
import ProcLisp.Proofs.Machine.Causes
import ProcLisp.Proofs.Scheduler.Undisturbed

/-!
# How processes come to their ends

A process ends in a slice of its own, from a point at which it has nothing left to do, or fails, or
exits. Its answer tells which of the three it was.
-/

namespace ProcLisp.Scheduler

variable {phase : Phase} {s s' : Scheduler} {p t : Pid} {q : Process} {exit : Exit}

/-! ### Processes that are ready can run -/

def Runnable (s : Scheduler) : Prop :=
  ∀ (p : Pid) q, s.procs[p]? = some q → q.state = .ready → q.machine.halted? = none

theorem Runnable.of_eq (runnable : Runnable s) (procs : s'.procs = s.procs) : Runnable s' := by
  intro p q there
  rw [procs] at there
  exact runnable p q there

theorem Runnable.update (runnable : Runnable s) (p : Pid) {f : Process → Process}
    (kept : ∀ q, (q.state = .ready → q.machine.halted? = none) →
      (f q).state = .ready → (f q).machine.halted? = none) : Runnable (s.update p f) := by
  intro r q there ready
  rw [procs_update] at there
  split at there
  · obtain ⟨q₀, there₀, rfl⟩ := Option.map_eq_some_iff.mp there
    exact kept q₀ (runnable r q₀ there₀) ready
  · exact runnable r q there ready

theorem Runnable.born {m : Machine} {parent pid : Pid} (runnable : Runnable s)
    (going : m.halted? = none) (registered : s.register m parent = .ok (pid, s')) :
    Runnable s' := by
  obtain ⟨rfl, changed⟩ := register_ok registered
  intro r q there ready
  rw [changed, Std.TreeMap.getElem?_insert] at there
  split at there
  · obtain rfl := Option.some.inj there
    exact Machine.halted?_congr (m := m) rfl going
  · exact runnable r q there ready

theorem Runnable.change (runnable : Runnable s) (sound : Sound phase s) (change : Change s s') :
    Runnable s' := by
  cases change with
  | aside => exact runnable.of_eq rfl
  | watched target watcher =>
    refine runnable.update target fun q kept => ?_
    unfold Process.addWatcher
    split <;> exact kept
  | noted => exact runnable.of_eq rfl
  | @mailed receiver q sender msg there busy =>
    have marked : Runnable (s.mark (.sent sender receiver msg)) := runnable.of_eq rfl
    exact marked.update receiver fun _ kept => kept
  | woken sender msg there parked =>
    obtain ⟨-, waits, -, -⟩ := (sound.2.stands there).of_blocked parked
    rw [hand_waiting waits]
    refine Runnable.of_eq (Runnable.update runnable _ fun q _ _ => ?_) rfl
    rfl
  | lost => exact runnable.of_eq rfl
  | taken =>
    refine Runnable.of_eq (runnable.update _ fun q kept => ?_) rfl
    exact kept
  | born going registered => exact runnable.born going registered

theorem steady_runnable : Steady fun phase s => Sound phase s ∧ Runnable s where
  change holds change := ⟨holds.1.change change, holds.2.change holds.1 change⟩
  flags started stopped holds :=
    ⟨steady_sound.flags started stopped holds.1, holds.2.of_eq rfl⟩
  queued holds := steady_sound.queued holds.1
  present holds := steady_sound.present holds.1
  begin {s p rest} holds popped := by
    have popping : Runnable { s with ready := rest } := holds.2.of_eq rfl
    exact ⟨holds.1.begin popped, popping.update p (by simp)⟩
  yielded {s p m} holds going := by
    have back := holds.2.update p (f := fun q => { q with machine := m, state := .ready })
      fun _ _ _ => going
    exact ⟨holds.1.yielded going, back.of_eq rfl⟩
  parked {s p q m} holds waits there unread := by
    have blocked := holds.2.update p (f := fun q => { q with machine := m, state := .blocked })
      (by simp)
    exact ⟨holds.1.parked waits there unread, blocked⟩
  buried {s p q} exit holds there := by
    refine ⟨holds.1.buried exit there, fun r q' found => ?_⟩
    change (s.procs.erase p)[r]? = some q' at found
    rw [Std.TreeMap.getElem?_erase] at found
    split at found
    · cases found
    · exact holds.2 r q' found
  released holds := ⟨holds.1.released, holds.2.of_eq rfl⟩

/-! ### The last slice -/

/-- The points that process `t` goes through in its slice after the requests `earlier`. -/
inductive Point (first : Scheduler) (t : Pid) (earlier : List Request) :
    Machine × Scheduler → Prop where
  | within {rest : Queue Pid} {q : Process} {n : Nat} {c : Machine × Scheduler}
      (going : (first.serveAll earlier).stopped = false)
      (popped : (first.serveAll earlier).ready.pop? = some (t, rest))
      (there : (first.serveAll earlier).procs[t]? = some q)
      (reached : Machine.iterate (first.serveAll earlier).machine (world t) n
        (q.machine, (first.serveAll earlier).begin t rest) = some c) : Point first t earlier c

/-- How process `t` ends from its last point. -/
inductive EndsBy (cfg : Machine.Config) (t : Pid) (c : Machine × Scheduler) : Exit → Prop where
  | finished (returning : c.1.control = .returning) (empty : c.1.stack.frames = []) :
      EndsBy cfg t c (.finished c.1.val c.1.env)
  | ended {ending : Ending} (last : Machine.Last cfg (world t) c ending) :
      EndsBy cfg t c (.ended ending)

theorem stop_terminated {c : Machine × Scheduler} {ending : Ending}
    (control : c.1.control = .terminated ending) :
    Exit.ofMachine (Machine.stop c).machine = .ended ending := by
  simp [Machine.stop, Machine.halted?, control, Exit.ofMachine, Machine.ending?]

theorem stop_returning {c : Machine × Scheduler} (control : c.1.control = .returning) :
    Exit.ofMachine (Machine.stop c).machine = .finished c.1.val c.1.env := by
  simp [Machine.stop, Machine.halted?, control, Exit.ofMachine, Machine.ending?]

theorem retired_park (s : Scheduler) (p : Pid) (m : Machine) : (s.park p m).retired = s.retired := by
  unfold park
  split
  · rename_i popped
    obtain ⟨q, rest, -, -, rfl⟩ := popMail_some popped
    unfold hand
    split <;> rfl
  · rfl

/-- A process that is gone after its slice came to its end in it. -/
theorem Sound.ends_by (sound : Sound .between s) (runnable : Runnable s)
    (stepped : s.step? = some (t, s')) (gone : s'.retired[t]? = some exit) :
    ∃ rest q n c, s.stopped = false ∧ s.ready.pop? = some (t, rest) ∧ s.procs[t]? = some q ∧
      Machine.iterate s.machine (world t) n (q.machine, s.begin t rest) = some c ∧
      EndsBy s.machine t c exit := by
  obtain ⟨rest, q, going, popped, there, ready, ended⟩ := sound.step_cases stepped
  have live := runnable t q there ready
  have staying : (s.runFrom t rest q).state.retired[t]? ≠ some exit := by
    intro gone
    have present := steady_sound.present (sound.run q popped)
    exact (sound.run q popped).1.apart t present (mem_retired gone)
  -- a process that is put back or parked is not gone
  cases ended with
  | yielded => exact absurd gone staying
  | parked =>
    rw [retired_park] at gone
    exact absurd gone staying
  | retired status there' =>
    rw [retired_of_retire (sound.run_ticked q popped) there'] at gone
    obtain rfl := Option.some.inj gone
    obtain ⟨n, c, reached, outcome⟩ :=
      Machine.run_cases s.machine (world t) s.slice q.machine (s.begin t rest)
    rcases outcome with ⟨same, -, -⟩ | ⟨same, stuck⟩
    · have yields : s.runFrom t rest q = ⟨.yielded, c.1, c.2⟩ := same
      rw [yields] at status
      simp at status
    · have stops : s.runFrom t rest q = Machine.stop c := same
      rw [stops] at status ⊢
      cases Machine.stopped_of_stuck live reached stuck with
      | finished returning empty =>
        rw [stop_returning returning]
        exact ⟨rest, q, n, c, going, popped, there, reached, .finished returning empty⟩
      | waiting control => simp [Machine.stop, Machine.halted?, control] at status
      | ended before last control =>
        rw [stop_terminated control]
        exact ⟨rest, q, _, _, going, popped, there, before, .ended last⟩

/-- Only a slice of its own changes what became of a process. -/
theorem Sound.retired_serve (sound : Sound .between s) {request : Request}
    (single : request.isExec = false) (t : Pid) :
    (s.serve request).retired[t]? = s.retired[t]? ∨
      request = .slice ∧ ∃ s', s.step? = some (t, s') := by
  cases request with
  | exec exprs env most => simp [Request.isExec] at single
  | spawn exprs env =>
    left
    simp only [serve]
    split
    · rename_i made
      exact (Undisturbed.born sound.1 made).exit
    · rfl
  | slice =>
    simp only [serve, true_and]
    split
    · rename_i r s' stepped
      by_cases own : r = t
      · subst own
        exact .inr ⟨s', stepped⟩
      · obtain ⟨rest, -, kept⟩ := sound.other_slice stepped own
        exact .inl kept.exit
    · exact .inl rfl
  | send receiver msg =>
    left
    simp only [serve]
    split
    · rename_i sent
      exact (Undisturbed.changes sound (changes_send sent)).exit
    · rfl
  | info p =>
    left
    simp only [serve]
    split
    · rename_i told
      exact (Undisturbed.informed sound told).exit
    · rfl
  | start =>
    left
    simp only [serve]
    split
    · rename_i done
      obtain ⟨attrs, rfl⟩ := start_ok done
      rfl
    · rfl
  | stop =>
    left
    simp only [serve]
    rcases stop_cases s with same | ⟨journal, -, same⟩
    · rw [same]
    · rw [same]
      rfl

/-- Every process that is gone in a run came to its end at some point of it. -/
theorem ended_in_run {first : Scheduler} (sound : Sound .between first) (runnable : Runnable first)
    (none : ∀ t : Pid, first.retired[t]? = none) (requests : List Request)
    (gone : (first.serveAll requests).retired[t]? = some exit) :
    ∃ earlier later c, first.serveAll requests = first.serveAll (earlier ++ .slice :: later) ∧
      Point first t earlier c ∧ EndsBy (first.serveAll earlier).machine t c exit := by
  obtain ⟨single, plain, same⟩ := serveAll_without_exec first requests
  rw [same] at gone ⊢
  clear same
  -- by induction from the end: the last request ended the process, or an earlier one did
  induction single using List.reverseRecOn with
  | nil => simp [serveAll, none] at gone
  | append_singleton single request ih =>
    rw [serveAll_append] at gone
    rcases (sound.serveAll single).retired_serve (plain request (by simp)) t with
      kept | ⟨rfl, s', stepped⟩
    · obtain ⟨earlier, later, c, whole, point, ends⟩ :=
        ih (kept.symm.trans gone) fun r member => plain r (by simp [member])
      refine ⟨earlier, later ++ [request], c, ?_, point, ends⟩
      rw [serveAll_append, whole, ← serveAll_append, List.append_assoc, List.cons_append]
    · have both := steady_runnable.serveAll single ⟨sound, runnable⟩
      change ((first.serveAll single).serve .slice).retired[t]? = some exit at gone
      rw [serve_slice stepped] at gone
      obtain ⟨rest, q, n, c, going, popped, there, reached, ends⟩ :=
        both.1.ends_by both.2 stepped gone
      exact ⟨single, [], c, rfl, .within going popped there reached, ends⟩

/-! ### Answers -/

/-- The reason that goes with an answer. -/
def Answer.reason : Answer → Value
  | .value _ _ => Machine.normalExit
  | .failed f => f.toValue
  | .exited _ reason => reason

theorem reason_of_answer {answer : Answer} (gone : s.retired[t]? = some exit)
    (given : s.answer? t = some answer) : exit.reason = answer.reason := by
  cases exit with
  | finished v env =>
    obtain rfl : Answer.value v env = answer := by simpa [answer?, gone] using given
    rfl
  | ended ending =>
    cases ending with
    | exited reason =>
      obtain rfl : Answer.exited t reason = answer := by simpa [answer?, gone] using given
      rfl
    | failed f =>
      obtain rfl : Answer.failed f = answer := by simpa [answer?, gone] using given
      rfl

/-- The answer tells how a process came to its end: out of work, by a failure, or by an exit. -/
theorem EndsBy.answer_iff {cfg : Machine.Config} {c : Machine × Scheduler}
    (ends : EndsBy cfg t c exit) (gone : s.retired[t]? = some exit) :
    (∀ v env, s.answer? t = some (.value v env) ↔
      c.1.control = .returning ∧ c.1.stack.frames = [] ∧ c.1.val = v ∧ c.1.env = env) ∧
    (∀ f, s.answer? t = some (.failed f) ↔
      ∃ d, c.1.next? cfg (world t) c.2 = some d ∧ d.machine = .error f) ∧
    (∀ r, s.answer? t = some (.exited t r) ↔ c.1.Exits r) := by
  simp only [answer?, gone]
  cases ends with
  | finished returning empty =>
    have stuck : c.1.next? cfg (world t) c.2 = none := Machine.next?_of_empty returning empty
    refine ⟨fun v env => ?_, fun f => ?_, fun r => ?_⟩
    · simp [returning, empty]
    · simp [stuck]
    · simp [Machine.Exits, empty]
  | ended last =>
    cases last with
    | @failed d f found failure =>
      refine ⟨fun v env => ?_, fun f' => ?_, fun r => ?_⟩
      · simp only [Option.some.injEq, reduceCtorEq, false_iff]
        rintro ⟨returning, empty, -⟩
        rw [Machine.next?_of_empty returning empty] at found
        cases found
      · simp [found, failure]
      · simp only [Option.some.injEq, reduceCtorEq, false_iff]
        intro exits
        obtain ⟨d', next, found', done⟩ := exits.succeeds (world t) rfl cfg c.2
        obtain rfl := Option.some.inj (found.symm.trans found')
        simp [failure] at done
    | @exited r cause =>
      refine ⟨fun v env => ?_, fun f => ?_, fun r' => ?_⟩
      · simp only [Option.some.injEq, reduceCtorEq, false_iff]
        rintro ⟨-, empty, -⟩
        obtain ⟨-, k, below, frames, -⟩ := cause
        simp [empty] at frames
      · simp only [Option.some.injEq, reduceCtorEq, false_iff]
        rintro ⟨d, found, failure⟩
        obtain ⟨d', next, found', done⟩ := cause.succeeds (world t) rfl cfg c.2
        obtain rfl := Option.some.inj (found.symm.trans found')
        simp [failure] at done
      · simp only [Option.some.injEq, Answer.exited.injEq, true_and]
        constructor
        · rintro rfl
          exact cause
        · exact cause.unique

end ProcLisp.Scheduler
