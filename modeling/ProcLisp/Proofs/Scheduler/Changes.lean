import Mathlib.Logic.Relation
import ProcLisp.Proofs.Machine.Effects
import ProcLisp.Proofs.Queue
import ProcLisp.Proofs.Results
import ProcLisp.Scheduler.Request

/-!
# What the acts of processes are made of

Sends, receipts, watches and forks change the scheduler in a few elementary ways. A slice is a
sequence of such changes, so that what each of them keeps, slices keep.
-/

namespace ProcLisp

/-- A watch or a notice: entered besides what is done, and no part of it. -/
def Event.isNotice : Event → Bool
  | .watched _ _ | .notified _ _ _ => true
  | _ => false

namespace Scheduler

open Relation (ReflTransGen)

/-! ### The table of processes -/

theorem procs_update (s : Scheduler) (p r : Pid) (f : Process → Process) :
    (s.update p f).procs[r]? = if p = r then s.procs[r]?.map f else s.procs[r]? := by
  simp only [update, Std.TreeMap.getElem?_modify, Std.compare_eq_iff_eq]
  split
  · rename_i same
    rw [same]
  · rfl

@[simp] theorem mem_update {s : Scheduler} {p r : Pid} {f : Process → Process} :
    r ∈ (s.update p f).procs ↔ r ∈ s.procs :=
  Std.TreeMap.mem_modify

@[simp] theorem size_update (s : Scheduler) (p : Pid) (f : Process → Process) :
    (s.update p f).procs.size = s.procs.size :=
  Std.TreeMap.size_modify

theorem mem_procs {s : Scheduler} {p : Pid} : p ∈ s.procs ↔ ∃ q, s.procs[p]? = some q := by
  rw [Std.TreeMap.mem_iff_isSome_getElem?, Option.isSome_iff_exists]

theorem not_mem_procs {s : Scheduler} {p : Pid} : p ∉ s.procs ↔ s.procs[p]? = none := by
  rw [Std.TreeMap.mem_iff_isSome_getElem?, Option.not_isSome_iff_eq_none]

theorem mem_retired {s : Scheduler} {p : Pid} {exit : Exit}
    (gone : s.retired[p]? = some exit) : p ∈ s.retired := by
  rw [Std.TreeMap.mem_iff_isSome_getElem?, gone]
  rfl

theorem isRetired_iff {s : Scheduler} {p : Pid} : s.isRetired p ↔ p ∈ s.retired :=
  Std.TreeMap.contains_iff_mem

/-! ### Elementary changes -/

inductive Change (s : Scheduler) : Scheduler → Prop where
  /-- Nothing that concerns processes and mail. -/
  | aside (logs : List Log.Entry) (printed : Transcript) (clock : Nat) (journal : Journal)
      (limiter : Log.Limiter) :
      Change s { s with logs, printed, clock, journal, limiter }
  | watched (target watcher : Pid) : Change s (s.update target (·.addWatcher watcher))
  | noted {e : Event} (notice : e.isNotice) : Change s (s.mark e)
  /-- A message to a process that does not wait. -/
  | mailed {receiver : Pid} {q : Process} (sender : Pid) (msg : Value)
      (there : s.procs[receiver]? = some q) (busy : q.state ≠ .blocked) :
      Change s ((s.mark (.sent sender receiver msg)).update receiver fun q =>
        { q with mailbox := q.mailbox.push msg })
  /-- A message to a process that waits. -/
  | woken {receiver : Pid} {q : Process} (sender : Pid) (msg : Value)
      (there : s.procs[receiver]? = some q) (parked : q.state = .blocked) :
      Change s ((s.mark (.sent sender receiver msg)).hand receiver q.machine msg)
  /-- A message to a process that is gone. -/
  | lost {receiver : Pid} (sender : Pid) (msg : Value) (absent : s.procs[receiver]? = none)
      (gone : receiver ∈ s.retired) :
      Change s { s.mark (.sent sender receiver msg) with dropped := s.dropped + 1 }
  | taken {p : Pid} {q : Process} {msg : Value} {rest : Queue Value}
      (there : s.procs[p]? = some q) (first : q.mailbox.pop? = some (msg, rest)) :
      Change s ((s.update p fun q => { q with mailbox := rest }).mark (.received p msg))
  | born {m : Machine} {parent pid : Pid} {s' : Scheduler} (runnable : m.halted? = none)
      (registered : s.register m parent = .ok (pid, s')) : Change s s'

abbrev Changes : Scheduler → Scheduler → Prop := ReflTransGen Change

variable {s s' : Scheduler} {sender receiver p target watcher : Pid} {msg reason : Value}

theorem changes_log (s : Scheduler) (level : Log.Level) (message : String)
    (attrs : List (Bytes × Bytes)) : Changes s (s.log level message attrs) :=
  .single (.aside _ s.printed s.clock s.journal s.limiter)

theorem changes_drop (absent : s.procs[receiver]? = none) (gone : receiver ∈ s.retired)
    (sender : Pid) (msg : Value) :
    Changes s ((s.mark (.sent sender receiver msg)).drop sender receiver) := by
  have lost := Change.lost sender msg absent gone
  simp only [drop]
  split
  · exact .single lost
  · exact .head lost (.single (.aside _ s.printed s.clock s.journal _))

theorem changes_deliver {q : Process} (there : s.procs[receiver]? = some q) (sender : Pid)
    (msg : Value) :
    Changes s ((s.mark (.sent sender receiver msg)).deliver receiver q msg) := by
  unfold deliver
  split
  · rename_i parked
    exact .single (.woken sender msg there parked)
  · rename_i busy
    exact .single (.mailed sender msg there busy)

theorem changes_send (sent : s.send sender receiver msg = .ok s') : Changes s s' := by
  unfold send process? at sent
  split at sent
  · rename_i there
    obtain rfl := Except.ok.inj sent
    exact changes_deliver there sender msg
  · rename_i absent
    split at sent
    · rename_i gone
      obtain rfl := Except.ok.inj sent
      exact changes_drop absent (isRetired_iff.mp gone) sender msg
    · simp at sent

theorem changes_notify (s : Scheduler) (target : Pid) (reason : Value) (watcher : Pid) :
    Changes s (s.notify target reason watcher) := by
  unfold notify
  split
  · rename_i sent
    exact (changes_send sent).tail (.noted rfl)
  · exact changes_log s _ _ _

theorem changes_recordedReason (s : Scheduler) (p : Pid) : Changes s (s.recordedReason p).2 :=
  .single (.aside s.logs s.printed _ _ s.limiter)

theorem changes_watch (watched : s.watch watcher target = .ok s') : Changes s s' := by
  unfold watch at watched
  split at watched
  · obtain rfl := Except.ok.inj watched
    exact .head (.watched target watcher) (.single (.noted rfl))
  · split at watched
    · obtain rfl := Except.ok.inj watched
      have noted := (changes_recordedReason s target).tail
        (.noted (e := .watched watcher target) rfl)
      exact noted.trans (changes_notify _ target _ watcher)
    · simp at watched

theorem popMail_some (popped : s.popMail p = some (msg, s')) :
    ∃ q rest, s.procs[p]? = some q ∧ q.mailbox.pop? = some (msg, rest) ∧
      s' = s.update p fun q => { q with mailbox := rest } := by
  unfold popMail process? at popped
  split at popped
  · rename_i found
    obtain ⟨rfl, rfl⟩ := Prod.mk.inj (Option.some.inj popped)
    obtain ⟨q, there, first⟩ := Option.bind_eq_some_iff.mp found
    exact ⟨q, _, there, first, rfl⟩
  · simp at popped

theorem popMail_none {q : Process} (popped : s.popMail p = none) (there : s.procs[p]? = some q) :
    q.mailbox.toList = [] := by
  unfold popMail process? at popped
  rw [there, Option.bind_some] at popped
  split at popped
  · simp at popped
  · rename_i empty
    exact Queue.toList_of_pop_none empty

theorem changes_receive (received : s.receive p = some (msg, s')) : Changes s s' := by
  obtain ⟨⟨msg, s₁⟩, popped, same⟩ := Option.map_eq_some_iff.mp received
  obtain ⟨rfl, rfl⟩ := Prod.mk.inj same
  obtain ⟨q, rest, there, first, rfl⟩ := popMail_some popped
  exact .single (.taken there first)

theorem changes_fork {birth : Birth} {child : Machine} {pid : Pid} (runnable : child.halted? = none)
    (forked : s.fork p birth child = .ok (pid, s')) : Changes s s' := by
  unfold fork at forked
  cases registered : s.register child p with
  | error f => simp [registered, Except.map] at forked
  | ok made =>
    simp only [registered, Except.map, Except.ok.injEq, Prod.mk.injEq] at forked
    obtain ⟨rfl, rfl⟩ := forked
    have born : Change s made.2 := .born runnable registered
    exact .head born (.single (.aside _ _ _ _ _))

/-- Whatever a process does in its slice is a sequence of elementary changes. -/
theorem keeps_changes (start : Scheduler) (p : Pid) :
    Machine.Keeps (world p) (Changes start) where
  print changed := changed.tail (.aside _ _ _ _ _)
  send acting sent changed := by
    obtain rfl := Option.some.inj acting
    exact changed.trans (changes_send (mapError_eq_ok.mp sent))
  receive acting received changed := by
    obtain rfl := Option.some.inj acting
    exact changed.trans (changes_receive received)
  fork acting runnable forked changed := by
    obtain rfl := Option.some.inj acting
    exact changed.trans (changes_fork runnable (mapError_eq_ok.mp forked))
  watch acting watched changed := by
    obtain rfl := Option.some.inj acting
    exact changed.trans (changes_watch (mapError_eq_ok.mp watched))

theorem changes_run (cfg : Machine.Config) (m : Machine) (p : Pid) (budget : Nat)
    (s : Scheduler) : Changes s (m.run cfg (world p) budget s).state :=
  (keeps_changes s p).run budget .refl

end Scheduler
end ProcLisp
