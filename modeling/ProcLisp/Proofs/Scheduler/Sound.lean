import ProcLisp.Proofs.Scheduler.Runs

/-!
# The invariant of the scheduler

Every pid belongs to a live process or to one that is gone, each process is queued exactly when it
can run, and what is done once for a process is done once. Tables and places are kept apart: mail
moves processes in and out of the queue and leaves the tables alone.
-/

namespace ProcLisp

namespace Event

def isBirthOf (p : Pid) : Event → Bool
  | .registered r => r == p
  | _ => false

def isEndOf (p : Pid) : Event → Bool
  | .finalized r _ => r == p
  | _ => false

def isMisdirected : Event → Bool
  | .misdirected _ _ => true
  | _ => false

/-- A message was sent, or received by a process that took it; or a watch or a notice. -/
def isMail : Event → Bool
  | .sent _ _ _ | .received _ _ | .watched _ _ | .notified _ _ _ => true
  | _ => false

theorem isMail_of_isNotice {e : Event} (notice : e.isNotice) : e.isMail := by
  cases e <;> simp [isNotice, isMail] at notice ⊢

end Event

namespace Scheduler

/-- A pid that was given to a process. -/
def HasIssued (s : Scheduler) (p : Pid) : Prop := ∃ n, 0 < n ∧ n ≤ s.issued ∧ p = s.pids.pid n

/-- How many processes are out of the table but still counted as live. -/
def Phase.leaving : Phase → Nat
  | .ending _ => 1
  | _ => 0

/-- The tables, the counter, the gates and the history agree. -/
structure Tables (phase : Phase) (s : Scheduler) : Prop where
  issued : ∀ p, s.HasIssued p ↔ p ∈ s.procs ∨ p ∈ s.retired
  apart : ∀ p, p ∈ s.procs → p ∉ s.retired
  active : ∀ p, phase = .running p → p ∈ s.procs
  buried : ∀ p, phase = .ending p → p ∈ s.retired
  live : s.live = s.procs.size + phase.leaving
  opened : ∀ p, p ∈ s.procs ∨ phase = .ending p → s.doneGates[p]? = some .opened
  closed : ∀ p, p ∈ s.retired → phase ≠ .ending p → s.doneGates[p]? = some .closed
  ungated : ∀ p, ¬ s.HasIssued p → s.doneGates[p]? = none
  busy : 0 < s.live → s.idleGate = .opened
  unbroken : s.idleGate ≠ .broken
  births : ∀ p, s.history.countP (·.isBirthOf p) = if p ∈ s.procs ∨ p ∈ s.retired then 1 else 0
  ends : ∀ p, s.history.countP (·.isEndOf p) = if p ∈ s.retired then 1 else 0
  direct : ∀ e ∈ s.history, ¬ e.isMisdirected

/-- How a live process stands: it is queued so many times. -/
inductive Stands (phase : Phase) (p : Pid) (q : Process) : (queued : Nat) → Prop where
  | running (state : q.state = .running) (here : phase = .running p) : Stands phase p q 0
  | ready (state : q.state = .ready) (elsewhere : phase ≠ .running p)
      (going : q.machine.control ≠ .waiting) : Stands phase p q 1
  | parked (state : q.state = .blocked) (elsewhere : phase ≠ .running p)
      (waits : q.machine.control = .waiting) (unread : q.mailbox.toList = []) :
      Stands phase p q 0

/-- Processes and the ready queue agree. -/
structure Places (phase : Phase) (s : Scheduler) : Prop where
  stands : ∀ {p q}, s.procs[p]? = some q → Stands phase p q (s.ready.toList.count p)
  queued : ∀ {p}, p ∈ s.ready.toList → p ∈ s.procs

def Sound (phase : Phase) (s : Scheduler) : Prop := Tables phase s ∧ Places phase s

variable {phase phase' : Phase} {s s' : Scheduler} {p r : Pid} {q : Process}

/-! ### What mail leaves alone -/

structure SameTables (s s' : Scheduler) : Prop where
  issued : s'.HasIssued = s.HasIssued
  procs : ∀ p, p ∈ s'.procs ↔ p ∈ s.procs
  size : s'.procs.size = s.procs.size
  retired : s'.retired = s.retired
  live : s'.live = s.live
  idleGate : s'.idleGate = s.idleGate
  doneGates : s'.doneGates = s.doneGates
  history : ∃ news, s'.history = news ++ s.history ∧ ∀ e ∈ news, e.isMail

theorem sameTables_update (s : Scheduler) (p : Pid) (f : Process → Process) (ready : Queue Pid)
    (news : History) (mail : ∀ e ∈ news, e.isMail) :
    SameTables s { s.update p f with ready, history := news ++ s.history } :=
  ⟨rfl, fun _ => mem_update, size_update s p f, rfl, rfl, rfl, rfl, news, rfl, mail⟩

theorem countP_mail {P : Event → Bool} (other : ∀ e, e.isMail → ¬ P e) {news history : History}
    (mail : ∀ e ∈ news, e.isMail) : (news ++ history).countP P = history.countP P := by
  rw [List.countP_append, List.countP_eq_zero.mpr fun e member => other e (mail e member),
    Nat.zero_add]

theorem SameTables.tables (same : SameTables s s') (tables : Tables phase s) :
    Tables phase s' := by
  obtain ⟨issued, procs, size, retired, live, idleGate, doneGates, news, history, mail⟩ := same
  constructor
  · intro p
    rw [issued, procs, retired]
    exact tables.issued p
  · intro p
    rw [procs, retired]
    exact tables.apart p
  · intro p here
    rw [procs]
    exact tables.active p here
  · intro p here
    rw [retired]
    exact tables.buried p here
  · rw [live, size]
    exact tables.live
  · intro p
    rw [procs, doneGates]
    exact tables.opened p
  · intro p
    rw [retired, doneGates]
    exact tables.closed p
  · intro p
    rw [issued, doneGates]
    exact tables.ungated p
  · rw [live, idleGate]
    exact tables.busy
  · rw [idleGate]
    exact tables.unbroken
  · intro p
    rw [history, countP_mail (by intro e; cases e <;> simp [Event.isMail, Event.isBirthOf]) mail,
      tables.births p]
    simp only [procs, retired]
  · intro p
    rw [history, countP_mail (by intro e; cases e <;> simp [Event.isMail, Event.isEndOf]) mail,
      tables.ends p, retired]
  · intro e member
    rw [history] at member
    rcases List.mem_append.mp member with new | old
    · have := mail e new
      cases e <;> simp_all [Event.isMail, Event.isMisdirected]
    · exact tables.direct e old

/-! ### Places -/

theorem Stands.congr {n : Nat} (stands : Stands phase p q n)
    (same : phase' = .running p ↔ phase = .running p) : Stands phase' p q n := by
  cases stands with
  | running state here => exact .running state (same.mpr here)
  | ready state elsewhere going => exact .ready state (mt same.mp elsewhere) going
  | parked state elsewhere waits unread => exact .parked state (mt same.mp elsewhere) waits unread

theorem Stands.of_blocked {n : Nat} (stands : Stands phase p q n) (blocked : q.state = .blocked) :
    phase ≠ .running p ∧ q.machine.control = .waiting ∧ q.mailbox.toList = [] ∧ n = 0 := by
  cases stands with
  | running state | ready state => simp [state] at blocked
  | parked _ elsewhere waits unread => exact ⟨elsewhere, waits, unread, rfl⟩

theorem Stands.of_running {n : Nat} (stands : Stands (.running p) p q n) :
    q.state = .running ∧ n = 0 := by
  cases stands with
  | running state => exact ⟨state, rfl⟩
  | ready _ elsewhere | parked _ elsewhere => exact absurd rfl elsewhere

theorem Places.of_eq (places : Places phase s) (procs : s'.procs = s.procs)
    (ready : s'.ready = s.ready) : Places phase s' := by
  constructor
  · intro p q there
    rw [procs] at there
    rw [ready]
    exact places.stands there
  · intro p member
    rw [ready] at member
    rw [procs]
    exact places.queued member

theorem Places.update (places : Places phase s) (f : Process → Process)
    (kept : ∀ {q n}, s.procs[p]? = some q → Stands phase p q n → Stands phase' p (f q) n)
    (others : ∀ r, r ≠ p → (phase' = .running r ↔ phase = .running r)) :
    Places phase' (s.update p f) := by
  constructor
  · intro r q there
    rw [procs_update] at there
    split at there
    · rename_i same
      subst same
      obtain ⟨q₀, there₀, rfl⟩ := Option.map_eq_some_iff.mp there
      exact kept there₀ (places.stands there₀)
    · rename_i other
      exact (places.stands there).congr (others r (Ne.symm other))
  · intro r member
    exact mem_update.mpr (places.queued member)

/-- A process that was not queued is changed and put at the end of the queue. -/
theorem Places.requeue (places : Places phase s) (f : Process → Process)
    (there : s.procs[p]? = some q) (unqueued : s.ready.toList.count p = 0)
    (ready : Stands phase' p (f q) 1)
    (others : ∀ r, r ≠ p → (phase' = .running r ↔ phase = .running r)) :
    Places phase' ((s.update p f).enqueue p) := by
  have list : ((s.update p f).enqueue p).ready.toList = s.ready.toList ++ [p] :=
    Queue.toList_push s.ready p
  constructor
  · intro r q' there'
    rw [list, List.count_append]
    change (s.update p f).procs[r]? = some q' at there'
    rw [procs_update] at there'
    split at there'
    · rename_i same
      subst same
      rw [there] at there'
      obtain rfl := Option.some.inj there'
      simpa [unqueued] using ready
    · rename_i other
      simpa [other] using (places.stands there').congr (others r (Ne.symm other))
  · intro r member
    rw [list] at member
    refine mem_update.mpr ?_
    rcases List.mem_append.mp member with old | new
    · exact places.queued old
    · rw [List.mem_singleton.mp new]
      exact mem_procs.mpr ⟨q, there⟩

/-! ### Births -/

theorem register_ok {m : Machine} {parent pid : Pid}
    (registered : s.register m parent = .ok (pid, s')) :
    pid = s.pids.pid (s.issued + 1) ∧ s' = { s with
      issued := s.issued + 1
      procs := s.procs.insert pid { parent, machine := m.adopt pid }
      doneGates := s.doneGates.insert pid .opened
      idleGate := if s.live = 0 then .opened else s.idleGate
      live := s.live + 1
      ready := s.ready.push pid
      history := .registered pid :: s.history
      logs := s'.logs } := by
  unfold register at registered
  split at registered
  · simp at registered
  · obtain ⟨rfl, rfl⟩ := Prod.mk.inj (Except.ok.inj registered)
    exact ⟨rfl, rfl⟩

theorem hasIssued_next (tables : Tables phase s) :
    s.pids.pid (s.issued + 1) ∉ s.procs ∧ s.pids.pid (s.issued + 1) ∉ s.retired := by
  have unissued : ¬ s.HasIssued (s.pids.pid (s.issued + 1)) := by
    rintro ⟨n, -, bound, same⟩
    have := s.pids.distinct same
    omega
  rw [tables.issued] at unissued
  exact not_or.mp unissued

theorem Places.born {m : Machine} {parent pid : Pid} (places : Places phase s)
    (tables : Tables phase s) (runnable : m.halted? = none)
    (registered : s.register m parent = .ok (pid, s')) : Places phase s' := by
  obtain ⟨rfl, changed⟩ := register_ok registered
  obtain ⟨absent, -⟩ := hasIssued_next tables
  generalize s.pids.pid (s.issued + 1) = pid at absent changed
  have unqueued : pid ∉ s.ready.toList := fun member => absent (places.queued member)
  rw [changed]
  constructor
  · intro r q there
    rw [Queue.toList_push, List.count_append]
    rw [Std.TreeMap.getElem?_insert] at there
    split at there
    · rename_i same
      rw [Std.compare_eq_iff_eq] at same
      subst same
      obtain rfl := Option.some.inj there
      rw [List.count_eq_zero.mpr unqueued]
      simp only [List.count_singleton_self, Nat.zero_add]
      refine .ready rfl (fun here => absent (tables.active _ here)) fun waits => ?_
      simp [Machine.adopt] at waits
      simp [Machine.halted?, waits] at runnable
    · rename_i other
      rw [Std.compare_eq_iff_eq] at other
      simpa [other] using places.stands there
  · intro r member
    rw [Queue.toList_push, List.mem_append, List.mem_singleton] at member
    rw [Std.TreeMap.mem_insert, Std.compare_eq_iff_eq]
    rcases member with old | rfl
    · exact .inr (places.queued old)
    · exact .inl rfl

theorem hasIssued_succ (pids : s'.pids = s.pids) (issued : s'.issued = s.issued + 1) (p : Pid) :
    s'.HasIssued p ↔ s.pids.pid (s.issued + 1) = p ∨ s.HasIssued p := by
  simp only [HasIssued, pids, issued]
  constructor
  · rintro ⟨n, positive, bound, rfl⟩
    by_cases last : n = s.issued + 1
    · exact .inl (by rw [last])
    · exact .inr ⟨n, positive, by omega, rfl⟩
  · rintro (rfl | ⟨n, positive, bound, rfl⟩)
    · exact ⟨s.issued + 1, by omega, Nat.le_refl _, rfl⟩
    · exact ⟨n, positive, by omega, rfl⟩

theorem Tables.born {m : Machine} {parent pid : Pid} (tables : Tables phase s)
    (registered : s.register m parent = .ok (pid, s')) : Tables phase s' := by
  obtain ⟨rfl, changed⟩ := register_ok registered
  obtain ⟨unborn, unburied⟩ := hasIssued_next tables
  have hasIssued : ∀ p, s'.HasIssued p ↔ s.pids.pid (s.issued + 1) = p ∨ s.HasIssued p :=
    hasIssued_succ (by rw [changed]) (by rw [changed])
  have procs : ∀ p, p ∈ s'.procs ↔ s.pids.pid (s.issued + 1) = p ∨ p ∈ s.procs := by
    intro p
    rw [changed, Std.TreeMap.mem_insert, Std.compare_eq_iff_eq]
  have gates : ∀ p, s'.doneGates[p]? =
      if s.pids.pid (s.issued + 1) = p then some .opened else s.doneGates[p]? := by
    intro p
    rw [changed, Std.TreeMap.getElem?_insert]
    simp only [Std.compare_eq_iff_eq]
  have retired : s'.retired = s.retired := by rw [changed]
  have history : s'.history = .registered (s.pids.pid (s.issued + 1)) :: s.history := by
    rw [changed]
  generalize s.pids.pid (s.issued + 1) = pid at *
  constructor
  · intro p
    rw [hasIssued, procs, retired, tables.issued p, or_assoc]
  · intro p there
    rw [retired]
    rcases (procs p).mp there with rfl | old
    · exact unburied
    · exact tables.apart p old
  · intro p here
    exact (procs p).mpr (.inr (tables.active p here))
  · intro p here
    rw [retired]
    exact tables.buried p here
  · rw [changed]
    simp only [Std.TreeMap.size_insert, Std.TreeMap.contains_iff_mem, unborn, if_false, tables.live]
    omega
  · intro p there
    rw [gates]
    split
    · rfl
    · rename_i other
      exact tables.opened p (there.imp_left fun there => ((procs p).mp there).resolve_left other)
  · intro p gone leaving
    rw [retired] at gone
    rw [gates, if_neg (by rintro rfl; exact unburied gone)]
    exact tables.closed p gone leaving
  · intro p unissued
    rw [hasIssued] at unissued
    obtain ⟨other, unissued⟩ := not_or.mp unissued
    rw [gates, if_neg other]
    exact tables.ungated p unissued
  · intro _
    rw [changed]
    simp only
    split
    · rfl
    · exact tables.busy (by omega)
  · rw [changed]
    simp only
    split
    · simp
    · exact tables.unbroken
  · intro p
    rw [history, List.countP_cons, tables.births p, retired]
    simp only [Event.isBirthOf, beq_iff_eq, procs]
    by_cases same : pid = p
    · subst same
      simp [unborn, unburied]
    · simp [same]
  · intro p
    rw [history, List.countP_cons, tables.ends p, retired]
    simp [Event.isEndOf]
  · intro e member
    rw [history] at member
    rcases List.mem_cons.mp member with rfl | old
    · simp [Event.isMisdirected]
    · exact tables.direct e old

/-! ### Changes -/

/-- Every change but a birth leaves the tables alone. -/
theorem Change.sameTables (change : Change s s') (places : Places phase s) :
    SameTables s s' ∨ ∃ m parent pid, m.halted? = none ∧
      s.register m parent = .ok (pid, s') := by
  cases change with
  | aside => exact .inl ⟨rfl, fun _ => .rfl, rfl, rfl, rfl, rfl, rfl, [], rfl, by simp⟩
  | watched target watcher =>
    exact .inl (sameTables_update s target _ s.ready [] (by simp))
  | @noted e notice =>
    exact .inl ⟨rfl, fun _ => .rfl, rfl, rfl, rfl, rfl, rfl, [e], rfl,
      by simp [Event.isMail_of_isNotice notice]⟩
  | @mailed receiver q sender msg there busy =>
    exact .inl (sameTables_update s receiver _ s.ready [.sent sender receiver msg]
      (by simp [Event.isMail]))
  | @woken receiver q sender msg there parked =>
    obtain ⟨-, waits, -, -⟩ := (places.stands there).of_blocked parked
    rw [hand_waiting waits]
    exact .inl (sameTables_update s receiver _ (s.ready.push receiver)
      [.received receiver msg, .sent sender receiver msg] (by simp [Event.isMail]))
  | lost sender msg absent gone =>
    exact .inl ⟨rfl, fun _ => .rfl, rfl, rfl, rfl, rfl, rfl, [.sent sender _ msg], rfl,
      by simp [Event.isMail]⟩
  | @taken p q msg rest there first =>
    exact .inl (sameTables_update s p _ s.ready [.received p msg] (by simp [Event.isMail]))
  | born runnable registered => exact .inr ⟨_, _, _, runnable, registered⟩

theorem Places.change (places : Places phase s) (tables : Tables phase s)
    (change : Change s s') : Places phase s' := by
  cases change with
  | aside => exact places.of_eq rfl rfl
  | watched target watcher =>
    refine places.update _ (fun {q n} _ stands => ?_) fun _ _ => .rfl
    have same : (q.addWatcher watcher).state = q.state ∧
        (q.addWatcher watcher).machine = q.machine ∧
        (q.addWatcher watcher).mailbox = q.mailbox := by
      unfold Process.addWatcher
      split <;> exact ⟨rfl, rfl, rfl⟩
    cases stands with
    | running state here => exact .running (by rw [same.1, state]) here
    | ready state elsewhere going =>
      exact .ready (by rw [same.1, state]) elsewhere (by rw [same.2.1]; exact going)
    | parked state elsewhere waits unread =>
      exact .parked (by rw [same.1, state]) elsewhere (by rw [same.2.1, waits])
        (by rw [same.2.2, unread])
  | noted => exact places.of_eq rfl rfl
  | @mailed receiver q₀ sender msg there busy =>
    refine (places.of_eq rfl rfl : Places phase (s.mark _)).update _
      (fun {q n} there' stands => ?_) fun _ _ => .rfl
    obtain rfl := Option.some.inj (there.symm.trans there')
    cases stands with
    | running state here => exact .running state here
    | ready state elsewhere going => exact .ready state elsewhere going
    | parked state => exact absurd state busy
  | @woken receiver q sender msg there parked =>
    obtain ⟨elsewhere, waits, -, unqueued⟩ := (places.stands there).of_blocked parked
    rw [hand_waiting waits]
    have moved := places.requeue (fun q₀ => { q₀ with
      machine := { q.machine with control := .returning, val := msg }, state := .ready })
      there unqueued (.ready rfl elsewhere nofun) fun _ _ => .rfl
    exact moved.of_eq rfl rfl
  | lost sender msg absent gone => exact places.of_eq rfl rfl
  | @taken p q msg rest there first =>
    refine (places.update _ (fun {q' n} there' stands => ?_) fun _ _ => .rfl :
      Places phase (s.update p _)).of_eq rfl rfl
    obtain rfl := Option.some.inj (there.symm.trans there')
    cases stands with
    | running state here => exact .running state here
    | ready state elsewhere going => exact .ready state elsewhere going
    | parked state elsewhere waits unread =>
      rw [Queue.toList_of_pop first] at unread
      simp at unread
  | born runnable registered => exact places.born tables runnable registered

theorem Sound.change (sound : Sound phase s) (change : Change s s') : Sound phase s' := by
  obtain ⟨tables, places⟩ := sound
  refine ⟨?_, places.change tables change⟩
  rcases change.sameTables places with same | ⟨m, parent, pid, -, registered⟩
  · exact same.tables tables
  · exact tables.born registered

/-! ### Slices -/

/-- The tables do not care about a slice until it buries its process. -/
theorem Tables.turn (tables : Tables phase s) (active : ∀ p, phase' = .running p → p ∈ s.procs)
    (staying : ∀ p, phase ≠ .ending p) (staying' : ∀ p, phase' ≠ .ending p) :
    Tables phase' s where
  issued := tables.issued
  apart := tables.apart
  active := active
  buried p here := absurd here (staying' p)
  live := by
    have live := tables.live
    cases phase <;> cases phase' <;> simp_all [Phase.leaving]
  opened p there := tables.opened p (there.imp_right fun here => absurd here (staying' p))
  closed p gone _ := tables.closed p gone (staying p)
  ungated := tables.ungated
  busy := tables.busy
  unbroken := tables.unbroken
  births := tables.births
  ends := tables.ends
  direct := tables.direct

theorem Sound.begin {rest : Queue Pid} (sound : Sound .between s)
    (popped : s.ready.pop? = some (p, rest)) : Sound (.running p) (s.begin p rest) := by
  obtain ⟨tables, places⟩ := sound
  have list := Queue.toList_of_pop popped
  have there : p ∈ s.procs := places.queued (by simp [list])
  have same : SameTables s (s.begin p rest) := sameTables_update s p _ rest [] (by simp)
  refine ⟨(same.tables tables).turn (by rintro r ⟨⟩; exact mem_update.mpr there) nofun nofun,
    ?_, ?_⟩
  · intro r q found
    change Stands _ r q (rest.toList.count r)
    rw [Scheduler.begin, procs_update] at found
    split at found
    · rename_i same
      subst same
      obtain ⟨q₀, there₀, rfl⟩ := Option.map_eq_some_iff.mp found
      have stands := places.stands there₀
      rw [list, List.count_cons_self] at stands
      generalize count : rest.toList.count p + 1 = n at stands
      cases stands with
      | running | parked => omega
      | ready =>
        rw [show rest.toList.count p = 0 by omega]
        exact .running rfl rfl
    · rename_i other
      have stands := places.stands found
      rw [list, List.count_cons_of_ne other] at stands
      exact stands.congr (by simp [other])
  · intro r member
    exact mem_update.mpr (places.queued (by rw [list]; exact .tail p member))

theorem Sound.yielded {m : Machine} (sound : Sound (.running p) s) (going : m.halted? = none) :
    Sound .between ((s.update p fun q => { q with machine := m, state := .ready }).enqueue p) := by
  obtain ⟨tables, places⟩ := sound
  obtain ⟨q, there⟩ := mem_procs.mp (tables.active p rfl)
  have same : SameTables s
      ((s.update p fun q => { q with machine := m, state := .ready }).enqueue p) :=
    sameTables_update s p _ (s.ready.push p) [] (by simp)
  refine ⟨(same.tables tables).turn nofun nofun nofun, ?_⟩
  refine places.requeue _ there (places.stands there).of_running.2
    (.ready rfl nofun fun waits => ?_) fun r other => by simp [Ne.symm other]
  have waits : m.control = .waiting := waits
  simp [Machine.halted?, waits] at going

theorem Sound.parked {m : Machine} (sound : Sound (.running p) s) (waits : m.control = .waiting)
    (there : s.procs[p]? = some q) (unread : q.mailbox.toList = []) :
    Sound .between (s.update p fun q => { q with machine := m, state := .blocked }) := by
  obtain ⟨tables, places⟩ := sound
  have same : SameTables s (s.update p fun q => { q with machine := m, state := .blocked }) :=
    sameTables_update s p _ s.ready [] (by simp)
  refine ⟨(same.tables tables).turn nofun nofun nofun, ?_⟩
  refine places.update _ (fun {q' n} there' stands => ?_) fun r other => by simp [Ne.symm other]
  obtain rfl := Option.some.inj (there.symm.trans there')
  rw [stands.of_running.2]
  exact .parked rfl nofun waits unread

theorem size_pos (there : p ∈ s.procs) : 0 < s.procs.size := by
  have inhabited : s.procs.isEmpty = false := by
    cases empty : s.procs.isEmpty with
    | false => rfl
    | true => exact absurd there (Std.TreeMap.isEmpty_iff_forall_not_mem.mp empty p)
  rw [Std.TreeMap.isEmpty_eq_size_eq_zero, beq_eq_false_iff_ne] at inhabited
  omega

theorem Tables.buried_at (tables : Tables (.running p) s) (exit : Exit) (q : Process) :
    Tables (.ending p) (s.bury p q exit) := by
  have there := tables.active p rfl
  have procs : ∀ r, r ∈ (s.bury p q exit).procs ↔ p ≠ r ∧ r ∈ s.procs := by
    intro r
    change r ∈ s.procs.erase p ↔ _
    rw [Std.TreeMap.mem_erase, Ne, Std.compare_eq_iff_eq]
  have retired : ∀ r, r ∈ (s.bury p q exit).retired ↔ p = r ∨ r ∈ s.retired := by
    intro r
    change r ∈ s.retired.insert p exit ↔ _
    rw [Std.TreeMap.mem_insert, Std.compare_eq_iff_eq]
  have either : ∀ r, r ∈ (s.bury p q exit).procs ∨ r ∈ (s.bury p q exit).retired ↔
      r ∈ s.procs ∨ r ∈ s.retired := by
    intro r
    rw [procs, retired]
    by_cases same : p = r
    · subst same
      simp [there]
    · simp [same]
  constructor
  · intro r
    rw [either]
    exact tables.issued r
  · intro r member
    obtain ⟨other, member⟩ := (procs r).mp member
    rw [retired]
    exact fun gone => gone.elim other (tables.apart r member)
  · nofun
  · rintro r ⟨⟩
    exact (retired p).mpr (.inl rfl)
  · have size : (s.bury p q exit).procs.size = s.procs.size - 1 := by
      change (s.procs.erase p).size = _
      rw [Std.TreeMap.size_erase, if_pos (Std.TreeMap.contains_iff_mem.mpr there)]
    rw [size]
    have positive := size_pos there
    have live : s.live = s.procs.size := tables.live
    change s.live = s.procs.size - 1 + 1
    omega
  · intro r member
    refine tables.opened r ?_
    rcases member with member | same
    · exact .inl ((procs r).mp member).2
    · obtain rfl := Phase.ending.inj same
      exact .inl there
  · intro r gone other
    rcases (retired r).mp gone with rfl | gone
    · exact absurd rfl other
    · exact tables.closed r gone nofun
  · exact tables.ungated
  · exact tables.busy
  · exact tables.unbroken
  · intro r
    change (Event.finalized p q.mailbox.toList :: s.history).countP _ = _
    rw [List.countP_cons, tables.births r]
    simp only [either, Event.isBirthOf, Bool.false_eq_true, if_false, Nat.add_zero]
  · intro r
    change (Event.finalized p q.mailbox.toList :: s.history).countP _ = _
    rw [List.countP_cons, tables.ends r]
    simp only [Event.isEndOf, beq_iff_eq, retired]
    by_cases same : p = r
    · subst same
      simp [tables.apart p there]
    · simp [same]
  · intro e member
    rcases List.mem_cons.mp member with rfl | old
    · simp [Event.isMisdirected]
    · exact tables.direct e old

theorem Sound.buried (sound : Sound (.running p) s) (exit : Exit) (there : s.procs[p]? = some q) :
    Sound (.ending p) (s.bury p q exit) := by
  obtain ⟨tables, places⟩ := sound
  have unqueued : p ∉ s.ready.toList :=
    List.count_eq_zero.mp (places.stands there).of_running.2
  refine ⟨tables.buried_at exit q, ?_, ?_⟩
  · intro r q' found
    change (s.procs.erase p)[r]? = some q' at found
    rw [Std.TreeMap.getElem?_erase] at found
    split at found
    · simp at found
    · rename_i other
      rw [Std.compare_eq_iff_eq] at other
      exact (places.stands found).congr (by simp [other])
  · intro r member
    change r ∈ s.procs.erase p
    rw [Std.TreeMap.mem_erase, Ne, Std.compare_eq_iff_eq]
    exact ⟨by rintro rfl; exact unqueued member, places.queued member⟩

theorem Sound.released (sound : Sound (.ending p) s) : Sound .between (s.release p) := by
  obtain ⟨tables, places⟩ := sound
  have live : s.live = s.procs.size + 1 := tables.live
  have opened : s.idleGate = .opened := tables.busy (by omega)
  have gates : ∀ r, (s.release p).doneGates[r]? =
      if p = r then s.doneGates[r]?.map Gate.close else s.doneGates[r]? := by
    intro r
    change (s.doneGates.modify p Gate.close)[r]? = _
    rw [Std.TreeMap.getElem?_modify]
    simp only [Std.compare_eq_iff_eq]
    split
    · rename_i same
      rw [same]
    · rfl
  refine ⟨?_, fun there => (places.stands there).congr (by simp), places.queued⟩
  constructor
  · exact tables.issued
  · exact tables.apart
  · nofun
  · nofun
  · change s.live - 1 = s.procs.size + 0
    omega
  · intro r member
    have there : r ∈ s.procs := member.elim id nofun
    rw [gates, if_neg]
    · exact tables.opened r (.inl there)
    · rintro rfl
      exact tables.apart p there (tables.buried p rfl)
  · intro r gone _
    rw [gates]
    split
    · rename_i same
      subst same
      rw [tables.opened p (.inr rfl)]
      rfl
    · rename_i other
      exact tables.closed r gone (by simp [other])
  · intro r unissued
    rw [gates, tables.ungated r unissued]
    simp
  · intro more
    change 0 < s.live - 1 at more
    change (if s.live - 1 = 0 then s.idleGate.close else s.idleGate) = .opened
    rw [if_neg (by omega), opened]
  · change (if s.live - 1 = 0 then s.idleGate.close else s.idleGate) ≠ .broken
    rw [opened]
    split <;> simp [Gate.close]
  · exact tables.births
  · exact tables.ends
  · exact tables.direct

theorem steady_sound : Steady Sound where
  change := Sound.change
  flags {s} started stopped sound := by
    have same : SameTables s { s with started, stopped } :=
      ⟨rfl, fun _ => .rfl, rfl, rfl, rfl, rfl, rfl, [], rfl, by simp⟩
    exact ⟨same.tables sound.1, sound.2.of_eq rfl rfl⟩
  queued sound popped := sound.2.queued (by simp [Queue.toList_of_pop popped])
  present sound := sound.1.active _ rfl
  begin := Sound.begin
  yielded := Sound.yielded
  parked := Sound.parked
  buried exit sound there := sound.buried exit there
  released := Sound.released

/-! ### Whole runs -/

theorem create_sound (table : SyscallTable) (slice maxFrames : Int) (journal : Journal)
    (ownsJournal : Bool) (workers clock : Nat) (pids : Pid.Source) :
    Sound .between (create table slice maxFrames journal ownsJournal workers clock pids) := by
  refine ⟨?_, fun there => by simp [create] at there, fun member => by simp [create] at member⟩
  constructor
  · intro p
    simp only [create, Std.TreeMap.not_mem_emptyc, or_self, iff_false]
    rintro ⟨n, positive, bound, -⟩
    simp only at bound
    omega
  all_goals simp [create, Phase.leaving]

theorem Sound.idle_iff (sound : Sound .between s) : s.idle ↔ ∀ p, p ∉ s.procs := by
  have live : s.live = s.procs.size := sound.1.live
  rw [← Std.TreeMap.isEmpty_iff_forall_not_mem, Std.TreeMap.isEmpty_eq_size_eq_zero, ← live,
    Scheduler.idle, Bool.or_eq_true, beq_iff_eq, beq_iff_eq]
  constructor
  · rintro (none | closed)
    · exact none
    · by_cases none : s.live = 0
      · exact none
      · simp [sound.1.busy (by omega)] at closed
  · exact .inl

theorem Sound.standing (sound : Sound .between s) (there : s.procs[p]? = some q) :
    (q.state = .ready ∧ s.ready.toList.count p = 1 ∧ q.machine.control ≠ .waiting) ∨
      (q.state = .blocked ∧ q.mailbox.toList = [] ∧ q.machine.control = .waiting ∧
        p ∉ s.ready.toList) := by
  have stands := sound.2.stands there
  rw [← List.count_eq_zero]
  generalize s.ready.toList.count p = n at stands
  cases stands with
  | running _ here => simp at here
  | ready state _ going => exact .inl ⟨state, rfl, going⟩
  | parked state _ waits unread => exact .inr ⟨state, unread, waits, rfl⟩

theorem Sound.gate_unbroken (sound : Sound .between s) (p : Pid) :
    s.doneGates[p]? ≠ some .broken := by
  by_cases issued : s.HasIssued p
  · rcases (sound.1.issued p).mp issued with there | gone
    · simp [sound.1.opened p (.inl there)]
    · simp [sound.1.closed p gone nofun]
  · simp [sound.1.ungated p issued]

/-- Between the slices of every run: each pid issued is in one of the two tables; a live process is
ready and queued once, or parked without mail and not queued; live processes are counted; and each
process that is gone was retired once, so that no gate was closed twice and no message was handed to
a machine that did not wait. -/
theorem serveAll_invariant (table : SyscallTable) (slice maxFrames : Int) (journal : Journal)
    (ownsJournal : Bool) (workers clock : Nat) (pids : Pid.Source) (requests : List Request) :
    let s := (create table slice maxFrames journal ownsJournal workers clock pids).serveAll requests
    (∀ p, s.HasIssued p ↔ p ∈ s.procs ∨ p ∈ s.retired) ∧
    (∀ p, ¬ (p ∈ s.procs ∧ p ∈ s.retired)) ∧
    (∀ p q, s.procs[p]? = some q →
      (q.state = .ready ∧ s.ready.toList.count p = 1 ∧ q.machine.control ≠ .waiting) ∨
      (q.state = .blocked ∧ q.mailbox.toList = [] ∧ q.machine.control = .waiting ∧
        p ∉ s.ready.toList)) ∧
    (∀ p ∈ s.ready.toList, p ∈ s.procs) ∧
    s.live = s.procs.size ∧
    (s.idle ↔ ∀ p, p ∉ s.procs) ∧
    (∀ p, s.history.countP (·.isEndOf p) = if p ∈ s.retired then 1 else 0) ∧
    (∀ p : Pid, s.doneGates[p]? ≠ some .broken) ∧ s.idleGate ≠ .broken ∧
    (∀ p msg, .misdirected p msg ∉ s.history) := by
  intro s
  have sound : Sound .between s := steady_sound.serveAll requests
    (create_sound table slice maxFrames journal ownsJournal workers clock pids)
  refine ⟨sound.1.issued, fun p both => sound.1.apart p both.1 both.2, fun p q => sound.standing,
    fun p => sound.2.queued, sound.1.live, sound.idle_iff, sound.1.ends, sound.gate_unbroken,
    sound.1.unbroken, fun p msg member => ?_⟩
  exact sound.1.direct _ member rfl

example :
    let wait : Value := .list [.sym (ascii "wait")]
    let s := (create [] 10 100 {} true 1 0).serveAll
      [.spawn [wait] [], .slice, .exec [.int 4] [] 1, .spawn [.int 5] []]
    (s.procs[Pid.issued 1]?).map (·.state) = some .blocked ∧ Pid.issued 2 ∈ s.retired ∧
      s.ready.toList = [.issued 3] := by
  decide +kernel

end Scheduler
end ProcLisp
