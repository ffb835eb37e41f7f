import ProcLisp.Proofs.Machine.Sessions
import ProcLisp.Proofs.Scheduler.Changes

/-!
# The scheduler and frames that are left out

What the scheduler does for a process that runs does not depend on which restore frames the machines
of the others leave out: it only stores them, and hands them messages.
-/

namespace ProcLisp

open Machine (Matches)

/-- The same process, but for frames that its machine leaves out. -/
structure Process.Mirrors (q r : Process) : Prop where
  machine : Matches q.machine r.machine
  others : r = { q with machine := r.machine }

theorem Process.Mirrors.addWatcher {q r : Process} (same : q.Mirrors r) (w : Pid) :
    (q.addWatcher w).Mirrors (r.addWatcher w) := by
  obtain ⟨machine, others⟩ := same
  rw [others]
  unfold Process.addWatcher
  dsimp only
  split <;> exact ⟨machine, rfl⟩

namespace Scheduler

/-- The same scheduler, but for frames that the machines of its processes leave out. -/
def Mirrors (s t : Scheduler) : Prop :=
  ∃ procs, (∀ p : Pid, Option.Rel Process.Mirrors s.procs[p]? procs[p]?) ∧ t = { s with procs }

variable {s t : Scheduler} {p : Pid}

theorem Mirrors.refl (s : Scheduler) : Mirrors s s := by
  refine ⟨s.procs, fun p => ?_, rfl⟩
  cases s.procs[p]? with
  | none => exact .none
  | some q => exact .some ⟨.refl q.machine, rfl⟩

theorem Mirrors.process? (mirrors : Mirrors s t) (p : Pid) :
    Option.Rel Process.Mirrors (s.process? p) (t.process? p) := by
  obtain ⟨procs, same, rfl⟩ := mirrors
  exact same p

theorem Mirrors.isRetired (mirrors : Mirrors s t) (p : Pid) : t.isRetired p = s.isRetired p := by
  obtain ⟨procs, same, rfl⟩ := mirrors
  rfl

theorem Mirrors.mark (mirrors : Mirrors s t) (e : Event) : Mirrors (s.mark e) (t.mark e) := by
  obtain ⟨procs, same, rfl⟩ := mirrors
  exact ⟨procs, same, rfl⟩

theorem Mirrors.note (mirrors : Mirrors s t) (group : List Bytes) (level : Log.Level)
    (message : String) (attrs : List (Bytes × Bytes)) :
    Mirrors (s.note group level message attrs) (t.note group level message attrs) := by
  obtain ⟨procs, same, rfl⟩ := mirrors
  exact ⟨procs, same, rfl⟩

theorem Mirrors.enqueue (mirrors : Mirrors s t) (p : Pid) :
    Mirrors (s.enqueue p) (t.enqueue p) := by
  obtain ⟨procs, same, rfl⟩ := mirrors
  exact ⟨procs, same, rfl⟩

theorem Mirrors.update (mirrors : Mirrors s t) (p : Pid) {f g : Process → Process}
    (step : ∀ {q r}, q.Mirrors r → (f q).Mirrors (g r)) :
    Mirrors (s.update p f) (t.update p g) := by
  obtain ⟨procs, same, rfl⟩ := mirrors
  refine ⟨procs.modify p g, fun r => ?_, rfl⟩
  have after : (procs.modify p g)[r]? = if p = r then procs[r]?.map g else procs[r]? :=
    procs_update { s with procs } p r g
  rw [procs_update, after]
  have before := same r
  split
  · generalize s.procs[r]? = x, procs[r]? = y at before
    cases before with
    | none => exact .none
    | some related => exact .some (step related)
  · exact before

theorem Mirrors.hand (mirrors : Mirrors s t) (p : Pid) {m m' : Machine} (same : Matches m m')
    (msg : Value) : Mirrors (s.hand p m msg) (t.hand p m' msg) := by
  have resumed := same.resume msg
  unfold Scheduler.hand
  generalize m.resume msg = x, m'.resume msg = y at resumed
  cases resumed with
  | ok next =>
    refine ((mirrors.update p ?_).mark _).enqueue p
    rintro q r ⟨-, others⟩
    exact ⟨next, by rw [others]⟩
  | error e =>
    refine ((mirrors.update p ?_).mark _).enqueue p
    rintro q r ⟨-, others⟩
    exact ⟨same, by rw [others]⟩

theorem Mirrors.deliver (mirrors : Mirrors s t) (receiver : Pid) {q r : Process}
    (same : q.Mirrors r) (msg : Value) :
    Mirrors (s.deliver receiver q msg) (t.deliver receiver r msg) := by
  have state : r.state = q.state := by rw [same.others]
  unfold Scheduler.deliver
  rw [state]
  split
  · exact mirrors.hand receiver same.machine msg
  · refine mirrors.update receiver ?_
    rintro q r ⟨machine, others⟩
    exact ⟨machine, by rw [others]⟩

theorem Mirrors.drop (mirrors : Mirrors s t) (sender receiver : Pid) :
    Mirrors (s.drop sender receiver) (t.drop sender receiver) := by
  obtain ⟨procs, same, rfl⟩ := mirrors
  unfold Scheduler.drop
  dsimp only
  cases s.limiter.allow? s.clock <;> exact ⟨procs, same, rfl⟩

theorem Mirrors.send (mirrors : Mirrors s t) (sender receiver : Pid) (msg : Value) :
    Agree Mirrors (s.send sender receiver msg) (t.send sender receiver msg) := by
  have there := mirrors.process? receiver
  have marked := mirrors.mark (.sent sender receiver msg)
  unfold Scheduler.send
  rw [mirrors.isRetired receiver]
  generalize s.process? receiver = x, t.process? receiver = y at there
  cases there with
  | some same => exact .ok (marked.deliver receiver same msg)
  | none =>
    dsimp only
    split
    · exact .ok (marked.drop sender receiver)
    · exact .error _

theorem Mirrors.notify (mirrors : Mirrors s t) (target : Pid) (reason : Value) (watcher : Pid) :
    Mirrors (s.notify target reason watcher) (t.notify target reason watcher) := by
  have sent := mirrors.send target watcher (exitMessage target reason)
  unfold Scheduler.notify
  generalize s.send target watcher (exitMessage target reason) = x,
    t.send target watcher (exitMessage target reason) = y at sent
  cases sent with
  | ok next => exact next.mark _
  | error f => exact mirrors.note _ _ _ _

theorem Mirrors.recordedReason (mirrors : Mirrors s t) (p : Pid) :
    (s.recordedReason p).1 = (t.recordedReason p).1 ∧
      Mirrors (s.recordedReason p).2 (t.recordedReason p).2 := by
  obtain ⟨procs, same, rfl⟩ := mirrors
  exact ⟨rfl, procs, same, rfl⟩

theorem Mirrors.watch (mirrors : Mirrors s t) (watcher target : Pid) :
    Agree Mirrors (s.watch watcher target) (t.watch watcher target) := by
  have there := mirrors.process? target
  have ⟨reason, recorded⟩ := mirrors.recordedReason target
  unfold Scheduler.watch
  rw [mirrors.isRetired target]
  generalize s.process? target = x, t.process? target = y at there
  cases there with
  | some same => exact .ok ((mirrors.update target fun same => same.addWatcher watcher).mark _)
  | none =>
    dsimp only
    split
    · rw [reason]
      exact .ok ((recorded.mark _).notify target _ watcher)
    · exact .error _

theorem Mirrors.receive (mirrors : Mirrors s t) (p : Pid) :
    Option.Rel (fun a b => a.1 = b.1 ∧ Mirrors a.2 b.2) (s.receive p) (t.receive p) := by
  have there := mirrors.process? p
  unfold Scheduler.receive Scheduler.popMail
  generalize s.process? p = x, t.process? p = y at there
  cases there with
  | none => exact .none
  | some same =>
    rename_i q r
    have mailbox : r.mailbox = q.mailbox := by rw [same.others]
    simp only [Option.bind_some, mailbox]
    cases q.mailbox.pop? with
    | none => exact .none
    | some taken =>
      refine .some ⟨rfl, (mirrors.update p ?_).mark _⟩
      rintro q r ⟨machine, others⟩
      exact ⟨machine, by rw [others]⟩

theorem Mirrors.register (mirrors : Mirrors s t) {m m' : Machine} (same : Matches m m')
    (parent : Pid) :
    Agree (fun a b => a.1 = b.1 ∧ Mirrors a.2 b.2) (s.register m parent)
      (t.register m' parent) := by
  obtain ⟨procs, others, rfl⟩ := mirrors
  unfold Scheduler.register
  dsimp only
  split
  · exact .error _
  · refine .ok ⟨rfl, procs.insert (s.pids.pid (s.issued + 1))
      { parent, machine := m'.adopt (s.pids.pid (s.issued + 1)) }, fun r => ?_, rfl⟩
    show Option.Rel Process.Mirrors (s.procs.insert _ _)[r]? _
    rw [Std.TreeMap.getElem?_insert, Std.TreeMap.getElem?_insert]
    split
    · exact .some ⟨same.adopt _, rfl⟩
    · exact others r

theorem Mirrors.fork (mirrors : Mirrors s t) {m m' : Machine} (same : Matches m m') (parent : Pid)
    (birth : Birth) :
    Agree (fun a b => a.1 = b.1 ∧ Mirrors a.2 b.2) (s.fork parent birth m)
      (t.fork parent birth m') := by
  refine (mirrors.register same parent).map ?_
  rintro ⟨pid, s'⟩ ⟨pid', t'⟩ ⟨rfl, registered⟩
  exact ⟨rfl, registered.note _ _ _ _⟩

/-- No process can tell which frames the others leave out. -/
theorem respects (p : Pid) : (world p).Respects Mirrors where
  refl := Mirrors.refl
  print text := by
    rintro ⟨procs, same, rfl⟩
    exact ⟨procs, same, rfl⟩
  send receiver msg := by
    intro acting mirrors
    obtain rfl := Option.some.inj acting
    exact (mirrors.send p receiver msg).mapError _
  receive := by
    intro _ _ _ acting mirrors
    obtain rfl := Option.some.inj acting
    exact mirrors.receive p
  fork birth := by
    intro acting same mirrors
    obtain rfl := Option.some.inj acting
    exact (mirrors.fork same p birth).mapError _
  watch target := by
    intro acting mirrors
    obtain rfl := Option.some.inj acting
    exact (mirrors.watch p target).mapError _

end Scheduler
end ProcLisp
