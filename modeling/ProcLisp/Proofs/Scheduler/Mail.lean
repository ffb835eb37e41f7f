import ProcLisp.Proofs.Scheduler.Sound

/-!
# The books of mail

The history tells which messages were sent to a process while it was live, and which it received.
The rest is in its mailbox, or was left unread at its end. A message that goes straight to a process
that waits overtakes nothing, since such a process has no mail.
-/

namespace ProcLisp

namespace History

def hasEnded (p : Pid) (h : History) : Bool := h.any (·.isEndOf p)

def isLive (p : Pid) (h : History) : Bool := h.any (·.isBirthOf p) && !h.hasEnded p

/-- The messages sent to a process while it was live, with their senders, oldest first. -/
def addressed (p : Pid) : History → List (Pid × Value)
  | [] => []
  | .sent sender receiver msg :: earlier =>
    if receiver = p ∧ isLive p earlier then addressed p earlier ++ [(sender, msg)]
    else addressed p earlier
  | _ :: earlier => addressed p earlier

/-- The messages that a process received, oldest first. -/
def received (p : Pid) : History → List Value
  | [] => []
  | .received r msg :: earlier =>
    if r = p then received p earlier ++ [msg] else received p earlier
  | _ :: earlier => received p earlier

/-- The mail that a process left unread at its end. -/
def discarded (p : Pid) : History → List Value
  | [] => []
  | .finalized r unread :: earlier => if r = p then unread else discarded p earlier
  | _ :: earlier => discarded p earlier

/-- How many messages were sent to processes that had ended. -/
def strays : History → Nat
  | [] => 0
  | .sent _ receiver _ :: earlier =>
    if hasEnded receiver earlier then strays earlier + 1 else strays earlier
  | _ :: earlier => strays earlier

theorem discarded_of_not_ended {p : Pid} {h : History} (going : h.hasEnded p = false) :
    h.discarded p = [] := by
  induction h with
  | nil => rfl
  | cons e earlier ih =>
    simp only [hasEnded, List.any_cons, Bool.or_eq_false_iff] at going
    cases e with
    | finalized r unread =>
      have other : r ≠ p := by simpa [Event.isEndOf] using going.1
      rw [discarded, if_neg other]
      exact ih going.2
    | _ => exact ih going.2

end History

namespace Scheduler

variable {phase : Phase} {s s' : Scheduler} {p r sender receiver : Pid} {q : Process} {msg : Value}

/-! ### What the history tells of the tables -/

theorem Tables.hasEnded_iff (tables : Tables phase s) (p : Pid) :
    s.history.hasEnded p ↔ p ∈ s.retired := by
  have ends := tables.ends p
  rw [History.hasEnded, List.any_eq_true, ← List.countP_pos_iff, ends]
  split <;> simp_all

theorem Tables.not_ended (tables : Tables phase s) (staying : p ∉ s.retired) :
    s.history.hasEnded p = false := by
  rw [← Bool.not_eq_true, tables.hasEnded_iff]
  exact staying

theorem Tables.isLive_iff (tables : Tables phase s) (p : Pid) :
    s.history.isLive p ↔ p ∈ s.procs := by
  have births := tables.births p
  rw [History.isLive, Bool.and_eq_true, Bool.not_eq_true', ← Bool.not_eq_true,
    tables.hasEnded_iff, List.any_eq_true, ← List.countP_pos_iff, births]
  constructor
  · rintro ⟨born, staying⟩
    split at born
    · rename_i known
      exact known.resolve_right staying
    · omega
  · intro there
    rw [if_pos (.inl there)]
    exact ⟨Nat.one_pos, tables.apart p there⟩

/-! ### Mail -/

/-- What a process has not received of its mail, or did not receive until its end. -/
def unread (s : Scheduler) (p : Pid) : List Value :=
  match s.procs[p]? with
  | some q => q.mailbox.toList
  | none => s.history.discarded p

/-- All mail is accounted for. -/
structure Mail (s : Scheduler) : Prop where
  kept : ∀ p, (s.history.addressed p).map (·.2) = s.history.received p ++ s.unread p
  dropped : s.dropped = s.history.strays

theorem unread_some (there : s.procs[p]? = some q) : s.unread p = q.mailbox.toList := by
  simp [unread, there]

theorem unread_none (absent : s.procs[p]? = none) : s.unread p = s.history.discarded p := by
  simp [unread, absent]

theorem Mail.of_eq (mail : Mail s) (unread : ∀ p, s'.unread p = s.unread p)
    (history : s'.history = s.history) (dropped : s'.dropped = s.dropped) : Mail s' := by
  constructor
  · intro p
    rw [history, unread]
    exact mail.kept p
  · rw [history, dropped]
    exact mail.dropped

theorem unread_update_of_ne (f : Process → Process) (other : p ≠ r) :
    (s.update p f).unread r = s.unread r := by
  simp only [unread, procs_update, if_neg other]
  rfl

theorem unread_update_self (f : Process → Process) (there : s.procs[p]? = some q) :
    (s.update p f).unread p = (f q).mailbox.toList := by
  refine unread_some ?_
  rw [procs_update, if_pos rfl, there]
  rfl

/-- Changes to processes that leave their mail alone. -/
theorem unread_update (f : Process → Process) (same : ∀ q, (f q).mailbox = q.mailbox) (r : Pid) :
    (s.update p f).unread r = s.unread r := by
  by_cases other : p = r
  · subst other
    cases there : s.procs[p]? with
    | some q => rw [unread_update_self f there, unread_some there, same]
    | none =>
      rw [unread_none there, unread_none (by rw [procs_update, if_pos rfl, there]; rfl)]
      rfl
  · exact unread_update_of_ne f other

/-! ### Changes -/

theorem addressed_live (tables : Tables phase s) (live : receiver ∈ s.procs) (sender : Pid)
    (msg : Value) (p : Pid) :
    History.addressed p (.sent sender receiver msg :: s.history) =
      if receiver = p then s.history.addressed p ++ [(sender, msg)]
      else s.history.addressed p := by
  rw [History.addressed]
  by_cases same : receiver = p
  · subst same
    rw [if_pos ⟨rfl, (tables.isLive_iff receiver).mpr live⟩, if_pos rfl]
  · rw [if_neg (fun both => same both.1), if_neg same]

theorem strays_live (tables : Tables phase s) (live : receiver ∈ s.procs) (sender : Pid)
    (msg : Value) :
    History.strays (.sent sender receiver msg :: s.history) = s.history.strays := by
  have going : ¬ s.history.hasEnded receiver := by
    rw [tables.hasEnded_iff]
    exact tables.apart receiver live
  rw [History.strays, if_neg going]

theorem Mail.mailed (mail : Mail s) (tables : Tables phase s)
    (there : s.procs[receiver]? = some q) (sender : Pid) (msg : Value) :
    Mail ((s.mark (.sent sender receiver msg)).update receiver fun q =>
      { q with mailbox := q.mailbox.push msg }) := by
  have live : receiver ∈ s.procs := mem_procs.mpr ⟨q, there⟩
  constructor
  · intro p
    change (History.addressed p (.sent sender receiver msg :: s.history)).map (·.2) =
      s.history.received p ++ _
    rw [addressed_live tables live]
    by_cases same : receiver = p
    · subst same
      rw [if_pos rfl, unread_update_self (s := s.mark _) _ there, Queue.toList_push,
        List.map_append, mail.kept receiver, unread_some there, List.append_assoc]
      rfl
    · rw [if_neg same, unread_update_of_ne _ same, mail.kept p]
      rfl
  · exact mail.dropped.trans (strays_live tables live sender msg).symm

theorem Mail.woken (mail : Mail s) (sound : Sound phase s) (there : s.procs[receiver]? = some q)
    (parked : q.state = .blocked) (sender : Pid) (msg : Value) :
    Mail ((s.mark (.sent sender receiver msg)).hand receiver q.machine msg) := by
  have live : receiver ∈ s.procs := mem_procs.mpr ⟨q, there⟩
  obtain ⟨-, waits, empty, -⟩ := (sound.2.stands there).of_blocked parked
  rw [hand_waiting waits]
  constructor
  · intro p
    change (History.addressed p (.sent sender receiver msg :: s.history)).map (·.2) =
      History.received p (.received receiver msg :: s.history) ++ (s.update receiver _).unread p
    rw [addressed_live sound.1 live, History.received, unread_update]
    case same => exact fun _ => rfl
    by_cases same : receiver = p
    · subst same
      -- there is no mail that the message could overtake
      have nothing : s.unread receiver = [] := (unread_some there).trans empty
      rw [if_pos rfl, if_pos rfl, List.map_append, mail.kept receiver, nothing, List.append_nil,
        List.append_nil]
      rfl
    · rw [if_neg same, if_neg same, mail.kept p]
  · exact mail.dropped.trans (strays_live sound.1 live sender msg).symm

theorem Mail.lost (mail : Mail s) (tables : Tables phase s) (absent : s.procs[receiver]? = none)
    (gone : receiver ∈ s.retired) (sender : Pid) (msg : Value) :
    Mail { s.mark (.sent sender receiver msg) with dropped := s.dropped + 1 } := by
  constructor
  · intro p
    change (History.addressed p (.sent sender receiver msg :: s.history)).map (·.2) =
      s.history.received p ++ s.unread p
    have outlived : ¬ (receiver = p ∧ s.history.isLive p) := by
      rintro ⟨rfl, live⟩
      exact not_mem_procs.mpr absent ((tables.isLive_iff receiver).mp live)
    rw [History.addressed, if_neg outlived, mail.kept p]
  · change s.dropped + 1 = History.strays (.sent sender receiver msg :: s.history)
    rw [History.strays, if_pos ((tables.hasEnded_iff receiver).mpr gone), mail.dropped]

theorem Mail.taken {rest : Queue Value} (mail : Mail s) (there : s.procs[p]? = some q)
    (first : q.mailbox.pop? = some (msg, rest)) :
    Mail ((s.update p fun q => { q with mailbox := rest }).mark (.received p msg)) := by
  constructor
  · intro r
    change (s.history.addressed r).map (·.2) =
      History.received r (.received p msg :: s.history) ++ (s.update p _).unread r
    rw [History.received, mail.kept r]
    by_cases same : p = r
    · subst same
      rw [if_pos rfl, unread_update_self _ there, unread_some there, Queue.toList_of_pop first,
        List.append_assoc]
      rfl
    · rw [if_neg same, unread_update_of_ne _ same]
  · exact mail.dropped

theorem Mail.born {m : Machine} {parent pid : Pid} (mail : Mail s) (tables : Tables phase s)
    (registered : s.register m parent = .ok (pid, s')) : Mail s' := by
  obtain ⟨rfl, changed⟩ := register_ok registered
  obtain ⟨unborn, unburied⟩ := hasIssued_next tables
  generalize s.pids.pid (s.issued + 1) = pid at *
  rw [changed]
  constructor
  · intro p
    change (s.history.addressed p).map (·.2) = s.history.received p ++ _
    rw [mail.kept p]
    congr 1
    by_cases same : pid = p
    · subst same
      have going : s.history.hasEnded pid = false := by
        rw [← Bool.not_eq_true, tables.hasEnded_iff]
        exact unburied
      rw [unread_none (not_mem_procs.mp unborn), History.discarded_of_not_ended going]
      have empty := unread_some (s := s') (p := pid) (by
        rw [changed]
        exact Std.TreeMap.getElem?_insert_self)
      rw [← changed, empty]
      rfl
    · simp only [unread, Std.TreeMap.getElem?_insert, Std.compare_eq_iff_eq, if_neg same]
      rfl
  · exact mail.dropped

theorem Mail.noted {e : Event} (mail : Mail s) (notice : e.isNotice) : Mail (s.mark e) := by
  cases e with
  | watched watcher target => exact ⟨mail.kept, mail.dropped⟩
  | notified target watcher msg => exact ⟨mail.kept, mail.dropped⟩
  | _ => simp [Event.isNotice] at notice

theorem Mail.change (mail : Mail s) (sound : Sound phase s) (change : Change s s') : Mail s' := by
  cases change with
  | aside => exact mail.of_eq (fun _ => rfl) rfl rfl
  | watched target watcher =>
    refine mail.of_eq (unread_update _ fun q => ?_) rfl rfl
    unfold Process.addWatcher
    split <;> rfl
  | noted notice => exact mail.noted notice
  | mailed sender msg there busy => exact mail.mailed sound.1 there sender msg
  | woken sender msg there parked => exact mail.woken sound there parked sender msg
  | lost sender msg absent gone => exact mail.lost sound.1 absent gone sender msg
  | taken there first => exact mail.taken there first
  | born runnable registered => exact mail.born sound.1 registered

theorem Mail.buried (mail : Mail s) (exit : Exit) (there : s.procs[p]? = some q) :
    Mail (s.bury p q exit) := by
  constructor
  · intro r
    change (s.history.addressed r).map (·.2) = s.history.received r ++ _
    rw [mail.kept r]
    congr 1
    by_cases same : p = r
    · subst same
      have erased : (s.bury p q exit).procs[p]? = none := Std.TreeMap.getElem?_erase_self
      rw [unread_none erased, unread_some there]
      exact (if_pos rfl).symm
    · have kept : (s.bury p q exit).procs[r]? = s.procs[r]? := by
        change (s.procs.erase p)[r]? = _
        simp only [Std.TreeMap.getElem?_erase, Std.compare_eq_iff_eq, if_neg same]
      have told : (s.bury p q exit).history.discarded r = s.history.discarded r := if_neg same
      simp only [unread, kept, told]
  · exact mail.dropped

theorem steady_mail : Steady fun phase s => Sound phase s ∧ Mail s where
  change holds change := ⟨holds.1.change change, holds.2.change holds.1 change⟩
  flags started stopped holds :=
    ⟨steady_sound.flags started stopped holds.1, holds.2.of_eq (fun _ => rfl) rfl rfl⟩
  queued holds := steady_sound.queued holds.1
  present holds := steady_sound.present holds.1
  begin holds popped := ⟨holds.1.begin popped,
    holds.2.of_eq (unread_update _ fun _ => rfl) rfl rfl⟩
  yielded holds going := ⟨holds.1.yielded going,
    holds.2.of_eq (unread_update _ fun _ => rfl) rfl rfl⟩
  parked holds waits there unread := ⟨holds.1.parked waits there unread,
    holds.2.of_eq (unread_update _ fun _ => rfl) rfl rfl⟩
  buried exit holds there := ⟨holds.1.buried exit there, holds.2.buried exit there⟩
  released holds := ⟨holds.1.released, holds.2.of_eq (fun _ => rfl) rfl rfl⟩

/-! ### Whole runs -/

theorem create_mail (table : SyscallTable) (slice maxFrames : Int) (journal : Journal)
    (ownsJournal : Bool) (workers clock : Nat) (pids : Pid.Source) :
    Mail (create table slice maxFrames journal ownsJournal workers clock pids) :=
  ⟨fun p => by simp [create, unread, History.addressed, History.received, History.discarded], rfl⟩

/-- The messages that a process received are the first ones that were sent to it. -/
theorem Mail.received_first (mail : Mail s) (p : Pid) :
    ∃ taken, taken <+: s.history.addressed p ∧ taken.map (·.2) = s.history.received p := by
  have lengths := congrArg (List.take (s.history.received p).length) (mail.kept p)
  rw [← List.map_take, List.take_left] at lengths
  exact ⟨_, List.take_prefix _ _, lengths⟩

theorem Sound.send_gone (sound : Sound phase s) (gone : receiver ∈ s.retired) (sender : Pid)
    (msg : Value) :
    ∃ limiter logs, s.send sender receiver msg = .ok { s with
      dropped := s.dropped + 1, history := .sent sender receiver msg :: s.history,
      limiter, logs } := by
  have absent : s.procs[receiver]? = none :=
    not_mem_procs.mp fun there => sound.1.apart receiver there gone
  simp only [send, process?, absent, isRetired_iff.mpr gone, if_true, drop]
  split
  · exact ⟨_, _, rfl⟩
  · exact ⟨_, _, rfl⟩

theorem Tables.unknown (tables : Tables phase s) (unissued : ¬ s.HasIssued p) :
    s.process? p = none ∧ s.isRetired p = false := by
  rw [tables.issued] at unissued
  obtain ⟨unborn, unburied⟩ := not_or.mp unissued
  refine ⟨not_mem_procs.mp unborn, ?_⟩
  rw [← Bool.not_eq_true, isRetired_iff]
  exact unburied

theorem Sound.send_unissued (sound : Sound phase s) (unissued : ¬ s.HasIssued receiver)
    (sender : Pid) (msg : Value) :
    s.send sender receiver msg = .error (.unknownProcess receiver) := by
  obtain ⟨unborn, unburied⟩ := sound.1.unknown unissued
  simp [send, unborn, unburied]

/-! ### What becomes of a message -/

/-- What becomes of a message to a process that is there or was: it goes to the mailbox, or into the
machine of a process that waits, or nowhere. -/
inductive Delivers (s : Scheduler) (sender receiver : Pid) (msg : Value) : Scheduler → Prop
  | mailed {q : Process} (there : s.procs[receiver]? = some q) (busy : q.state ≠ .blocked) :
      Delivers s sender receiver msg ((s.mark (.sent sender receiver msg)).update receiver
        fun q => { q with mailbox := q.mailbox.push msg })
  | handed {q : Process} (there : s.procs[receiver]? = some q) (parked : q.state = .blocked)
      (waits : q.machine.control = .waiting) (unread : q.mailbox.toList = []) :
      Delivers s sender receiver msg ((((s.mark (.sent sender receiver msg)).update receiver
        fun q' => { q' with
          machine := { q.machine with control := .returning, val := msg }
          state := .ready }).mark (.received receiver msg)).enqueue receiver)
  | dropped (gone : receiver ∈ s.retired) (limiter : Log.Limiter) (logs : List Log.Entry) :
      Delivers s sender receiver msg { s with
        dropped := s.dropped + 1, history := .sent sender receiver msg :: s.history,
        limiter, logs }

theorem Sound.send_delivers (sound : Sound phase s) (issued : s.HasIssued receiver) (sender : Pid)
    (msg : Value) :
    ∃ s', s.send sender receiver msg = .ok s' ∧ Delivers s sender receiver msg s' := by
  rcases (sound.1.issued receiver).mp issued with live | gone
  · obtain ⟨q, there⟩ := mem_procs.mp live
    refine ⟨_, by simp only [send, process?, there]; rfl, ?_⟩
    unfold deliver
    split
    · rename_i parked
      obtain ⟨-, waits, unread, -⟩ := (sound.2.stands there).of_blocked parked
      rw [hand_waiting waits]
      exact .handed there parked waits unread
    · rename_i busy
      exact .mailed there busy
  · obtain ⟨limiter, logs, sent⟩ := sound.send_gone gone sender msg
    exact ⟨_, sent, .dropped gone limiter logs⟩

/-- What a program sends. -/
theorem Sound.dispatch_send (sound : Sound phase s) (issued : s.HasIssued receiver) (sender : Pid)
    (msg : Value) : ∃ s', Delivers s sender receiver msg.copy s' ∧
      ∀ cfg (m : Machine) env,
        m.dispatch cfg (world sender) (.primitive .send) [.pid receiver, msg] env s =
          Machine.quiet s' (.ok (m.ret (.pid receiver) env)) := by
  obtain ⟨s', sent, delivers⟩ := sound.send_delivers issued sender msg.copy
  refine ⟨s', delivers, fun cfg m env => ?_⟩
  simp only [Machine.dispatch, world, Machine.perform, sent]
  rfl

/-- What is sent from outside. -/
theorem Sound.serve_send (sound : Sound phase s) (issued : s.HasIssued receiver) (msg : Value) :
    Delivers s Pid.nil receiver msg.copy (s.serve (.send receiver msg)) := by
  obtain ⟨s', sent, delivers⟩ := sound.send_delivers issued Pid.nil msg.copy
  have served : s.serve (.send receiver msg) = s' := by simp [serve, sendOutside, sent]
  rwa [served]

theorem Sound.refuses_unissued (sound : Sound phase s) (unissued : ¬ s.HasIssued receiver)
    (msg : Value) : s.sendOutside receiver msg = .error (.unknownProcess receiver) ∧
      s.serve (.send receiver msg) = s ∧
      ∀ cfg (m : Machine) p env,
        m.dispatch cfg (world p) (.primitive .send) [.pid receiver, msg] env s =
          Machine.quiet s (.error (.unknownProcess receiver)) := by
  have refused : s.sendOutside receiver msg = .error (.unknownProcess receiver) :=
    sound.send_unissued unissued Pid.nil msg.copy
  refine ⟨refused, by simp [serve, refused], fun cfg m p env => ?_⟩
  simp only [Machine.dispatch, world, Machine.perform, sound.send_unissued unissued]
  rfl

/-- What a process gets that calls `(wait)`: the oldest message of its mailbox, or nothing, and then
its machine waits. -/
inductive Takes (s : Scheduler) (p : Pid) (m : Machine) : Machine → Scheduler → Prop
  | oldest {q : Process} {msg : Value} {rest : Queue Value} (there : s.procs[p]? = some q)
      (first : q.mailbox.toList = msg :: rest.toList) :
      Takes s p m { m with control := .returning, val := msg }
        ((s.update p fun q => { q with mailbox := rest }).mark (.received p msg))
  | nothing {q : Process} (there : s.procs[p]? = some q) (unread : q.mailbox.toList = []) :
      Takes s p m { m with control := .waiting } s

theorem dispatch_wait (cfg : Machine.Config) (m : Machine) (env : Env) (live : p ∈ s.procs) :
    ∃ m' s', m.dispatch cfg (world p) (.primitive .wait) [] env s = Machine.quiet s' (.ok m') ∧
      Takes s p { m with env := env } m' s' := by
  obtain ⟨q, there⟩ := mem_procs.mp live
  simp only [Machine.dispatch, world, Machine.perform, receive]
  cases popped : s.popMail p with
  | some taken =>
    obtain ⟨msg, s'⟩ := taken
    obtain ⟨q', rest, there', first, rfl⟩ := popMail_some popped
    exact ⟨_, _, rfl, .oldest there' (Queue.toList_of_pop first)⟩
  | none => exact ⟨_, _, rfl, .nothing there (popMail_none popped there)⟩

/-- What becomes of a process whose machine waits at the end of its slice: the oldest message that
came in the meantime is handed to the machine, or the process is blocked. -/
inductive Parks (s : Scheduler) (p : Pid) (m : Machine) : Scheduler → Prop
  | handed {q : Process} {msg : Value} {rest : Queue Value} (there : s.procs[p]? = some q)
      (first : q.mailbox.toList = msg :: rest.toList) :
      Parks s p m ((((s.update p fun q => { q with mailbox := rest }).update p fun q => { q with
        machine := { m with control := .returning, val := msg }
        state := .ready }).mark (.received p msg)).enqueue p)
  | blocked {q : Process} (there : s.procs[p]? = some q) (unread : q.mailbox.toList = []) :
      Parks s p m (s.update p fun q => { q with machine := m, state := .blocked })

theorem parks {m : Machine} (waits : m.control = .waiting) (live : p ∈ s.procs) :
    Parks s p m (s.park p m) := by
  obtain ⟨q, there⟩ := mem_procs.mp live
  unfold park
  split
  · rename_i popped
    obtain ⟨q', rest, there', first, rfl⟩ := popMail_some popped
    rw [hand_waiting waits]
    exact .handed there' (Queue.toList_of_pop first)
  · rename_i popped
    exact .blocked there (popMail_none popped there)

end Scheduler
end ProcLisp
