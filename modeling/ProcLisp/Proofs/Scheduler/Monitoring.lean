import ProcLisp.Proofs.Scheduler.Delivery
import ProcLisp.Proofs.Scheduler.Endings
import ProcLisp.Proofs.Scheduler.Watching
import ProcLisp.Proofs.Value.Proper

/-!
# Monitoring

Who watches a process is told of its end, and told once for all watches before it; who watches one
that is gone is told each time. What they are told is what the journal has, what is reported about
the process, and what its execution answers.
-/

namespace ProcLisp.Scheduler

variable {phase : Phase} {s s' first : Scheduler} {t w : Pid} {exit : Exit}

/-! ### What is asked about a process that is gone -/

theorem Watching.info_gone (watching : Watching [] s) (tables : Tables phase s)
    (gone : s.retired[t]? = some exit) :
    ∃ info s', s.info t = .ok (info, s') ∧ info.reason = exit.reason := by
  have member := mem_retired gone
  have absent := not_mem_procs.mp fun there => tables.apart t there member
  obtain ⟨journal, looked, -⟩ := watching.recordedReason gone
  refine ⟨{ pid := t, state := .terminated, reason := exit.reason }, { s with journal }.tick,
    ?_, rfl⟩
  simp [Scheduler.info, process?, absent, isRetired_iff.mpr member, looked]

theorem Watching.record_gone (watching : Watching [] s) (gone : s.retired[t]? = some exit) :
    (s.journal.lookup s.clock t).1.map (·.reason) = some exit.reason ∧
      ((s.journal.cache.records s.clock).filter (·.pid = t)).map (·.reason) = [exit.reason] := by
  obtain ⟨r, held, reason⟩ := watching.ledger.recorded gone
  obtain ⟨journal, found, -⟩ := watching.ledger.lossless.lookup held s.clock
  rw [found, watching.ledger.lossless.records_of held s.clock]
  simp [reason]

theorem answer?_gone (gone : s.retired[t]? = some exit) : ∃ answer, s.answer? t = some answer := by
  simp only [answer?, gone]
  split <;> simp_all

/-! ### Who may be watched -/

theorem Sound.watch_unissued (sound : Sound phase s) (unissued : ¬ s.HasIssued t) (w : Pid) :
    s.watch w t = .error (.unknownProcess t) := by
  obtain ⟨unborn, unburied⟩ := sound.1.unknown unissued
  simp [watch, unborn, unburied]

/-- A watch of a process that is gone looks up how it ended, and tells of it. -/
theorem Watching.watch_gone (watching : Watching [] s) (sound : Sound phase s)
    (gone : s.retired[t]? = some exit) (w : Pid) :
    ∃ journal, Sound phase ({ s with journal }.tick.mark (.watched w t)) ∧
      s.watch w t =
        .ok (({ s with journal }.tick.mark (.watched w t)).notify t exit.reason w) := by
  have member := mem_retired gone
  have absent := not_mem_procs.mp fun there => sound.1.apart t there member
  obtain ⟨journal, looked, -⟩ := watching.recordedReason gone
  refine ⟨journal,
    (sound.change (.aside s.logs s.printed _ journal s.limiter)).change (.noted rfl), ?_⟩
  simp only [Scheduler.watch, process?, absent, isRetired_iff.mpr member, if_true, looked]

/-- Whoever was issued can be watched, and the watch is entered as what it is. -/
theorem Watching.watch_entered (watching : Watching [] s) (sound : Sound phase s)
    (asking : s.HasIssued w) (issued : s.HasIssued t) :
    ∃ s', s.watch w t = .ok s' ∧
      if t ∈ s.retired then s'.history.lateWatches w t = s.history.lateWatches w t + 1
      else s'.history.watchedInTime w t := by
  rcases (sound.1.issued t).mp issued with there | gone
  · obtain ⟨q, found⟩ := mem_procs.mp there
    have staying := sound.1.apart t there
    refine ⟨(s.update t (·.addWatcher w)).mark (.watched w t), ?_, ?_⟩
    · simp only [Scheduler.watch, process?, found]
    · rw [if_neg staying]
      change History.watchedInTime w t (.watched w t :: s.history)
      simp [History.watchedInTime, sound.1.not_ended staying]
  · obtain ⟨exit, found⟩ := retired_of_isRetired (isRetired_iff.mpr gone)
    obtain ⟨journal, noted, watched⟩ := watching.watch_gone sound found w
    obtain ⟨s', still, told⟩ := notify_issued noted.1 asking t exit.reason
    rw [told] at watched
    refine ⟨_, watched, ?_⟩
    rw [if_pos gone]
    change s'.history.lateWatches w t = _
    rw [still.history.same.lateWatches]
    change History.lateWatches w t (.watched w t :: s.history) = _
    simp [History.lateWatches, (sound.1.hasEnded_iff t).mpr gone]

theorem Watching.watch_issued (watching : Watching [] s) (sound : Sound phase s)
    (asking : s.HasIssued w) (issued : s.HasIssued t) :
    ∃ s', s.watch w t = .ok s' ∧
      (∀ cfg (m : Machine) env,
        m.dispatch cfg (world w) (.primitive .watch) [.pid t] env s =
          Machine.quiet s' (.ok (m.ret (.pid t) env))) ∧
      if t ∈ s.retired then s'.history.lateWatches w t = s.history.lateWatches w t + 1
      else s'.history.watchedInTime w t := by
  obtain ⟨s', watched, entered⟩ := watching.watch_entered sound asking issued
  refine ⟨s', watched, fun cfg m env => ?_, entered⟩
  simp only [Machine.dispatch, world, Machine.perform, watched]
  rfl

/-- Whoever asks too late is sent the notice at once. -/
theorem Watching.watch_delivers (watching : Watching [] s) (sound : Sound phase s)
    (asking : s.HasIssued w) (gone : s.retired[t]? = some exit) :
    ∃ journal s', Delivers ({ s with journal }.tick.mark (.watched w t)) t w
        (exitMessage t exit.reason) s' ∧
      s.watch w t = .ok (s'.mark (.notified t w (exitMessage t exit.reason))) := by
  obtain ⟨journal, noted, watched⟩ := watching.watch_gone sound gone w
  obtain ⟨s', sent, delivers⟩ := noted.send_delivers asking t (exitMessage t exit.reason)
  refine ⟨journal, s', delivers, ?_⟩
  rw [watched, Scheduler.notify, sent]

/-! ### What watchers get -/

/-- What is sent to a process that is not gone in the name of one that is gone is among its mail. -/
def Relayed (s : Scheduler) : Prop :=
  ∀ w t, w ∉ s.retired →
    ((s.history.posthumous w t).reverse.map (t, ·)).Sublist (s.history.addressed w)

theorem Relayed.of_eq (relayed : Relayed s) (retired : s'.retired = s.retired)
    (history : s'.history = s.history) : Relayed s' := by
  unfold Relayed
  rw [retired, history]
  exact relayed

/-- Only sends have a part in it. -/
theorem Relayed.entered {e : Event} (relayed : Relayed s)
    (retired : ∀ w, w ∉ s'.retired → w ∉ s.retired) (history : s'.history = e :: s.history)
    (other : ∀ sender receiver msg, e ≠ .sent sender receiver msg) : Relayed s' := by
  intro w t staying
  have before := relayed w t (retired w staying)
  rw [history]
  cases e with
  | sent sender receiver msg => exact absurd rfl (other sender receiver msg)
  | _ => exact before

theorem Relayed.sent {receiver : Pid} (relayed : Relayed s) (tables : Tables phase s)
    (live : receiver ∈ s.procs) (sender : Pid) (msg : Value) :
    Relayed (s.mark (.sent sender receiver msg)) := by
  intro w t staying
  have before := relayed w t staying
  change ((History.posthumous w t (.sent sender receiver msg :: s.history)).reverse.map
    (t, ·)).Sublist (History.addressed w (.sent sender receiver msg :: s.history))
  rw [addressed_live tables live, History.posthumous]
  by_cases here : receiver = w
  · rw [if_pos here]
    split
    · rename_i told
      rw [List.reverse_cons, List.map_append, told.2.1]
      exact before.append (.refl _)
    · exact before.trans (List.sublist_append_left _ _)
  · rw [if_neg here, if_neg fun told => here told.1]
    exact before

theorem Relayed.lost {receiver : Pid} (relayed : Relayed s) (gone : receiver ∈ s.retired)
    (sender : Pid) (msg : Value) : Relayed (s.mark (.sent sender receiver msg)) := by
  intro w t staying
  have here : receiver ≠ w := by
    rintro rfl
    exact staying gone
  change ((History.posthumous w t (.sent sender receiver msg :: s.history)).reverse.map
    (t, ·)).Sublist (History.addressed w (.sent sender receiver msg :: s.history))
  rw [History.posthumous, History.addressed, if_neg fun told => here told.1,
    if_neg fun told => here told.1]
  exact relayed w t staying

theorem Relayed.change (relayed : Relayed s) (sound : Sound phase s) (change : Change s s') :
    Relayed s' := by
  cases change with
  | aside => exact relayed.of_eq rfl rfl
  | watched => exact relayed.of_eq rfl rfl
  | @noted e notice =>
    refine relayed.entered (fun _ => id) rfl fun sender receiver msg same => ?_
    subst same
    cases notice
  | mailed sender msg there busy =>
    exact (relayed.sent sound.1 (mem_procs.mpr ⟨_, there⟩) sender msg).of_eq rfl rfl
  | @woken receiver q sender msg there parked =>
    have sent := relayed.sent sound.1 (mem_procs.mpr ⟨_, there⟩) sender msg
    rw [hand_waiting ((sound.2.stands there).of_blocked parked).2.1]
    exact sent.entered (e := .received receiver msg) (fun _ => id) rfl (by simp)
  | lost sender msg absent gone => exact (relayed.lost gone sender msg).of_eq rfl rfl
  | @taken p q msg rest there first =>
    exact relayed.entered (e := .received p msg) (fun _ => id) rfl (by simp)
  | born runnable registered =>
    obtain ⟨-, changed⟩ := register_ok registered
    refine relayed.entered (e := .registered _) (fun w staying => ?_) (by rw [changed]) (by simp)
    rwa [changed] at staying

theorem steady_relayed : Steady fun phase s => (Sound phase s ∧ Mail s) ∧ Relayed s where
  change holds change :=
    ⟨steady_mail.change holds.1 change, holds.2.change holds.1.1 change⟩
  flags started stopped holds :=
    ⟨steady_mail.flags started stopped holds.1, holds.2.of_eq rfl rfl⟩
  queued holds := steady_mail.queued holds.1
  present holds := steady_mail.present holds.1
  begin holds popped := ⟨steady_mail.begin holds.1 popped, holds.2.of_eq rfl rfl⟩
  yielded holds going := ⟨steady_mail.yielded holds.1 going, holds.2.of_eq rfl rfl⟩
  parked holds waits there unread :=
    ⟨steady_mail.parked holds.1 waits there unread, holds.2.of_eq rfl rfl⟩
  buried {s p q} exit holds there := by
    refine ⟨steady_mail.buried exit holds.1 there, holds.2.entered
      (e := .finalized p q.mailbox.toList) (fun w staying gone => staying ?_) rfl (by simp)⟩
    exact Std.TreeMap.mem_insert.mpr (.inr gone)
  released holds := ⟨steady_mail.released holds.1, holds.2.of_eq rfl rfl⟩

/-- Every notice to a process that is there was received, or is in its mailbox. -/
theorem Relayed.notices {q : Process} (relayed : Relayed s) (mail : Mail s)
    (tables : Tables phase s) (watching : Watching [] s) (there : s.procs[w]? = some q) (t : Pid) :
    (s.history.notices w t).reverse.Sublist (s.history.received w ++ q.mailbox.toList) := by
  have staying := tables.apart w (mem_procs.mpr ⟨q, there⟩)
  have sent := (relayed w t staying).map (·.2)
  rw [mail.kept w, unread_some there] at sent
  rw [watching.settles.posted]
  simpa using sent

/-! ### Whole runs -/

/-- What became of a process stays so within slices, and whoever is gone at a moment of a run came
to its end at some point before. -/
theorem ended_before (sound : Sound .between first) (runnable : Runnable first)
    (none : ∀ t : Pid, first.retired[t]? = none) (moment : Moment first s)
    (gone : s.retired[t]? = some exit) :
    ∃ earlier c, Point first t earlier c ∧ Moment ((first.serveAll earlier).serve .slice) s ∧
      EndsBy (first.serveAll earlier).machine t c exit := by
  cases moment with
  | between requests =>
    obtain ⟨earlier, later, c, same, point, ends⟩ := ended_in_run sound runnable none requests gone
    rw [serveAll_append, serveAll_cons] at same
    rw [same]
    exact ⟨earlier, c, point, .between later, ends⟩
  | @within requests p rest q n c' going popped there reached =>
    have changed := (keeps_changes ((first.serveAll requests).begin p rest) p).iterate reached .refl
    have begun := (sound.serveAll requests).begin popped
    have kept := (Undisturbed.changes (p := t) begun changed).exit
    obtain ⟨earlier, later, c, same, point, ends⟩ :=
      ended_in_run sound runnable none requests (kept.symm.trans gone)
    rw [serveAll_append, serveAll_cons] at same
    rw [same] at going popped there reached
    exact ⟨earlier, c, point, .within later going popped there reached, ends⟩

/-- At every moment of every run whose journal keeps every record:
* the notices that `w` got about `t` are what was sent to it in the name of `t` after its end: one
  if it watched in time, and one more for each watch that came too late;
* each of them is `(exit t reason)`, with a copy of the one reason that is also reported, recorded
  once, and answered with (a copy is equal to any value whose maps are in order);
* the answer is a value if `t` ran out of work, a failure if one escaped, and an exit otherwise;
* only pids that were issued can be watched, and no notice is refused;
* a watch of one that is there enters the watcher into its list, which holds those who watched in
  time, and a watch of one that is gone delivers the notice at once;
* of a process that is there, every notice was received, or is in the mailbox, and in a whole run
  what it received is what it is seen to get. -/
theorem monitoring_is_exact (table : SyscallTable) (slice maxFrames : Int) {journal : Journal}
    (ownsJournal : Bool) (workers clock : Nat) (pids : Pid.Source) (lossless : journal.Lossless)
    (writable : journal.closed = false) {s : Scheduler}
    (moment : Moment (create table slice maxFrames journal ownsJournal workers clock pids) s) :
    (∀ w t,
      (s.history.notices w t).length =
        (if t ∈ s.retired ∧ s.history.watchedInTime w t then 1 else 0) +
          s.history.lateWatches w t ∧
      s.history.notices w t = s.history.posthumous w t ∧
      (∀ msg (earlier : History), .notified t w msg :: earlier <:+ s.history →
        earlier.hasEnded t) ∧
      ∀ msg ∈ s.history.notices w t, ∃ exit, s.retired[t]? = some exit ∧
        msg = .list [.sym (ascii "exit"), .pid t, exit.reason.copy] ∧
        (exit.reason.Proper → exit.reason.copy.equal exit.reason)) ∧
    (∀ t exit, s.retired[t]? = some exit →
      (∃ info s', s.info t = .ok (info, s') ∧ info.reason = exit.reason) ∧
      (s.journal.lookup s.clock t).1.map (·.reason) = some exit.reason ∧
      ((s.journal.cache.records s.clock).filter (·.pid = t)).map (·.reason) = [exit.reason] ∧
      (∃ answer, s.answer? t = some answer ∧ answer.reason = exit.reason) ∧
      ∃ earlier c,
        let first := create table slice maxFrames journal ownsJournal workers clock pids
        Point first t earlier c ∧ Moment ((first.serveAll earlier).serve .slice) s ∧
        (∀ v env, s.answer? t = some (.value v env) ↔
          c.1.control = .returning ∧ c.1.stack.frames = [] ∧ c.1.val = v ∧ c.1.env = env) ∧
        (∀ f, s.answer? t = some (.failed f) ↔
          ∃ d, c.1.next? (first.serveAll earlier).machine (world t) c.2 = some d ∧
            d.machine = .error f) ∧
        ∀ r, s.answer? t = some (.exited t r) ↔ c.1.Exits r) ∧
    (∀ w t, ¬ s.HasIssued t → s.watch w t = .error (.unknownProcess t) ∧
      ∀ cfg (m : Machine) env,
        m.dispatch cfg (world w) (.primitive .watch) [.pid t] env s =
          Machine.quiet s (.error (.unknownProcess t))) ∧
    (∀ w t, s.HasIssued w → s.HasIssued t → ∃ s', s.watch w t = .ok s' ∧
      (∀ cfg (m : Machine) env,
        m.dispatch cfg (world w) (.primitive .watch) [.pid t] env s =
          Machine.quiet s' (.ok (m.ret (.pid t) env))) ∧
      if t ∈ s.retired then s'.history.lateWatches w t = s.history.lateWatches w t + 1
      else s'.history.watchedInTime w t) ∧
    (∀ w t exit, s.HasIssued w → s.retired[t]? = some exit →
      ∃ journal s', Delivers ({ s with journal }.tick.mark (.watched w t)) t w
          (exitMessage t exit.reason) s' ∧
        s.watch w t = .ok (s'.mark (.notified t w (exitMessage t exit.reason)))) ∧
    (∀ t q, s.procs[t]? = some q →
      q.watchers.Nodup ∧ ∀ w, w ∈ q.watchers ↔ s.history.watchedInTime w t) ∧
    (∀ w q, s.procs[w]? = some q → ∀ t,
      (s.history.notices w t).reverse.Sublist (s.history.received w ++ q.mailbox.toList)) ∧
    (∀ requests,
      let first := create table slice maxFrames journal ownsJournal workers clock pids
      let s := first.serveAll requests
      ∀ w q, s.procs[w]? = some q → ∀ t, (s.history.notices w t).reverse.Sublist
        (Scenes.obtained w (first.scenes requests) ++ q.mailbox.toList)) ∧
    ∀ entry ∈ s.logs, entry.message ≠ ascii "failed to notify watcher" := by
  have start := create_sound table slice maxFrames journal ownsJournal workers clock pids
  have mail := create_mail table slice maxFrames journal ownsJournal workers clock pids
  have fresh :=
    create_watching table slice maxFrames ownsJournal workers clock pids lossless writable
  have relayed : Relayed (create table slice maxFrames journal ownsJournal workers clock pids) :=
    fun w t _ => .refl _
  have told {s : Scheduler}
      (moment : Moment (create table slice maxFrames journal ownsJournal workers clock pids) s)
      (w : Pid) (q : Process) (there : s.procs[w]? = some q) (t : Pid) :
      (s.history.notices w t).reverse.Sublist (s.history.received w ++ q.mailbox.toList) := by
    obtain ⟨phase, ⟨sound, mail⟩, relayed⟩ :=
      steady_relayed.moment ⟨⟨start, mail⟩, relayed⟩ moment
    obtain ⟨-, -, watching⟩ := fresh.moment start moment
    exact relayed.notices mail sound.1 watching there t
  obtain ⟨phase, sound, watching⟩ := fresh.moment start moment
  refine ⟨fun w t => ⟨?_, watching.settles.posted w t, watching.settles.timely w t,
    fun msg told => ?_⟩, fun t exit gone => ?_, fun w t unissued => ?_,
    fun w t asking issued => watching.watch_issued sound asking issued,
    fun w t exit asking gone => watching.watch_delivers sound asking gone,
    fun t q there => watching.ledger.listed there, told moment,
    fun requests w q there t => ?_, watching.ledger.unrefused⟩
  · have counted := watching.settles.counted w t
    simp only [sound.1.hasEnded_iff] at counted
    exact counted
  · obtain ⟨exit, gone, same⟩ := watching.worded told
    exact ⟨exit, gone, same, Value.Proper.equal_copy⟩
  · obtain ⟨found, single⟩ := watching.record_gone gone
    obtain ⟨answer, given⟩ := answer?_gone gone
    have runnable :
        Runnable (create table slice maxFrames journal ownsJournal workers clock pids) :=
      fun p q there => by simp [create] at there
    obtain ⟨earlier, c, point, later, ends⟩ :=
      ended_before start runnable (fun t => by simp [create]) moment gone
    exact ⟨watching.info_gone sound.1 gone, found, single,
      ⟨answer, given, (reason_of_answer gone given).symm⟩,
      earlier, c, point, later, ends.answer_iff gone⟩
  · have refused := sound.watch_unissued unissued w
    refine ⟨refused, fun cfg m env => ?_⟩
    simp only [Machine.dispatch, world, Machine.perform, refused]
    rfl
  · have got := received_scenes ⟨start, mail⟩ requests w
    have seen := told (.between requests) w q there t
    rw [got] at seen
    exact seen

/-- The second process watches itself and exits. The first one has watched it twice in time and is
told once, by what it waits for; the third one watches it twice when it is gone and is told twice. -/
theorem monitoring_is_exact_self_early_late :
    let watch : Value := .list [.sym (ascii "watch"), .pid (.issued 2)]
    let leave : Value := .list [.sym (ascii "terminate"), .int 7]
    let wait : Value := .list [.sym (ascii "wait")]
    let requests : List Request := [.spawn [watch, watch, wait] [], .spawn [watch, leave] [],
      .slice, .slice, .slice, .spawn [watch, watch] [], .slice]
    let first := create [] 10 100 {} true 1 0
    let s := first.serveAll requests
    (s.history.notices (.issued 1) (.issued 2)).length = 1 ∧
      (s.history.notices (.issued 2) (.issued 2)).length = 1 ∧
      (s.history.notices (.issued 3) (.issued 2)).length = 2 ∧
      (∀ w, ∀ msg ∈ s.history.notices w (.issued 2), ∃ r : Value,
        msg = .list [.sym (ascii "exit"), .pid (.issued 2), r] ∧ r.equal (.int 7)) ∧
      ((s.journal.cache.records s.clock).filter (·.pid = .issued 2)).map (·.reason) =
        [.int 7] ∧
      (Scenes.obtained (.issued 1) (first.scenes requests)).map
        (·.equal (.list [.sym (ascii "exit"), .pid (.issued 2), .int 7])) = [true] := by
  intro watch leave wait requests first s
  have lossless : ({} : Journal).Lossless := Journal.fresh_lossless none
  have moment : Moment (create [] 10 100 {} true 1 0) s := .between _
  have ⟨told, ended, _⟩ := monitoring_is_exact [] 10 100 true 1 0 .counting lossless rfl moment
  have seven : (s.retired[Pid.issued 2]?).map (·.reason.equal (.int 7)) = some true := by
    decide +kernel
  obtain ⟨exit, gone, equal⟩ := Option.map_eq_some_iff.mp seven
  have reason : exit.reason = .int 7 := Value.eq_int_of_equal equal
  refine ⟨(told _ _).1.trans ?_, (told _ _).1.trans ?_, (told _ _).1.trans ?_,
    fun w msg member => ?_, ?_, ?_⟩
  · decide +kernel
  · decide +kernel
  · decide +kernel
  · obtain ⟨exit', gone', same, copied⟩ := (told w (.issued 2)).2.2.2 msg member
    obtain rfl := Option.some.inj (gone.symm.trans gone')
    rw [reason] at same copied
    exact ⟨_, same, copied (.int 7)⟩
  · rw [← reason]
    exact (ended _ exit gone).2.2.1
  · decide +kernel

end ProcLisp.Scheduler
