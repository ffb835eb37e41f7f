import ProcLisp.Proofs.Journal.Lossless
import ProcLisp.Proofs.Scheduler.Undisturbed
import ProcLisp.Proofs.Scheduler.Notices

/-!
# Watchers are told

Everyone who watches a live process is on its list, once. Its end is recorded before anyone is told
of it, so that those who ask too late are told the same. Most of what happens is still: it has no
part in this.
-/

namespace ProcLisp.Scheduler

open History (Quiet Quietly)

variable {phase : Phase} {s s' s'' : Scheduler} {p w t : Pid} {q : Process} {exit : Exit}
  {owed : List (Pid × Pid)} {msg : Value}

/-- What is logged about a notice that cannot be sent. -/
def failedNotice : Bytes := ascii "failed to notify watcher"

/-! ### What has no part in watching -/

/-- What watching depends on, the history apart. -/
structure Alike (s s' : Scheduler) : Prop where
  watchers : ∀ t : Pid, s'.procs[t]?.map (·.watchers) = s.procs[t]?.map (·.watchers)
  issued : s'.HasIssued = s.HasIssued
  retired : s'.retired = s.retired
  journal : s'.journal = s.journal
  stopped : s'.stopped = s.stopped
  logs : ∀ entry ∈ s'.logs, entry ∈ s.logs ∨ entry.message ≠ failedNotice

theorem Alike.mark (s : Scheduler) (e : Event) : Alike s (s.mark e) :=
  ⟨fun _ => rfl, rfl, rfl, rfl, rfl, fun _ => .inl⟩

theorem Alike.trans (first : Alike s s') (second : Alike s' s'') : Alike s s'' where
  watchers t := (second.watchers t).trans (first.watchers t)
  issued := second.issued.trans first.issued
  retired := second.retired.trans first.retired
  journal := second.journal.trans first.journal
  stopped := second.stopped.trans first.stopped
  logs entry member := (second.logs entry member).elim (first.logs entry) .inr

structure Still (s s' : Scheduler) : Prop extends Alike s s' where
  history : Quietly s.history s'.history

namespace Still

theorem trans (first : Still s s') (second : Still s' s'') : Still s s'' :=
  ⟨first.toAlike.trans second.toAlike, first.history.trans second.history⟩

/-- The queue, the clock, the gates and the counters. -/
theorem apart (s : Scheduler) (started : Bool) (ready : Queue Pid) (printed : Transcript)
    (live clock dropped : Nat) (limiter : Log.Limiter) (idleGate : Gate)
    (doneGates : Std.TreeMap Pid Gate) :
    Still s { s with
      started, ready, printed, live, clock, dropped, limiter, idleGate, doneGates } :=
  ⟨⟨fun _ => rfl, rfl, rfl, rfl, rfl, fun _ => .inl⟩, .refl⟩

theorem update (s : Scheduler) (p : Pid) {f : Process → Process}
    (same : ∀ q, (f q).watchers = q.watchers) : Still s (s.update p f) := by
  refine ⟨⟨fun t => ?_, rfl, rfl, rfl, rfl, fun _ => .inl⟩, .refl⟩
  rw [procs_update]
  split
  · rw [Option.map_map]
    exact congrArg (Option.map · _) (funext same)
  · rfl

theorem mark {e : Event} (quiet : s.history.Quiet e) : Still s (s.mark e) :=
  ⟨.mark s e, .single quiet⟩

theorem note (s : Scheduler) (group : List Bytes) (level : Log.Level) {message : String}
    (attrs : List (Bytes × Bytes)) (other : ascii message ≠ failedNotice) :
    Still s (s.note group level message attrs) := by
  refine ⟨⟨fun _ => rfl, rfl, rfl, rfl, rfl, fun entry member => ?_⟩, .refl⟩
  rcases List.mem_cons.mp member with rfl | old
  · exact .inr other
  · exact .inl old

theorem log (s : Scheduler) (level : Log.Level) {message : String} (attrs : List (Bytes × Bytes))
    (other : ascii message ≠ failedNotice) : Still s (s.log level message attrs) :=
  note s _ level attrs other

theorem enqueue (s : Scheduler) (p : Pid) : Still s (s.enqueue p) := apart s ..

theorem tick (s : Scheduler) : Still s s.tick := apart s ..

theorem hand (s : Scheduler) (p : Pid) (m : Machine) (msg : Value) :
    Still s (s.hand p m msg) := by
  unfold Scheduler.hand
  split
  · refine ((update s p fun q => ?_).trans (mark (.received p msg))).trans (enqueue _ p)
    rfl
  · refine ((update s p fun q => ?_).trans (mark (.misdirected p msg))).trans (enqueue _ p)
    rfl

theorem deliver (s : Scheduler) (p : Pid) (q : Process) (msg : Value) :
    Still s (s.deliver p q msg) := by
  unfold Scheduler.deliver
  split
  · exact hand s p _ msg
  · exact update s p fun _ => rfl

theorem drop (s : Scheduler) (sender receiver : Pid) : Still s (s.drop sender receiver) := by
  unfold Scheduler.drop
  simp only
  split
  · exact apart s ..
  · exact (apart s ..).trans (log _ _ _ (by decide))

/-- Sending does nothing else of note. -/
theorem sent {sender receiver : Pid} (done : s.send sender receiver msg = .ok s') :
    Still (s.mark (.sent sender receiver msg)) s' := by
  unfold Scheduler.send at done
  split at done
  · obtain rfl := Except.ok.inj done
    exact deliver _ receiver _ msg
  · split at done
    · obtain rfl := Except.ok.inj done
      exact drop _ sender receiver
    · cases done

theorem send {sender receiver : Pid} (going : s.history.hasEnded sender = false)
    (done : s.send sender receiver msg = .ok s') : Still s s' :=
  (mark (.sent going receiver msg)).trans (sent done)

theorem receive (received : s.receive p = some (msg, s')) : Still s s' := by
  obtain ⟨⟨msg, s₁⟩, popped, same⟩ := Option.map_eq_some_iff.mp received
  obtain ⟨rfl, rfl⟩ := Prod.mk.inj same
  obtain ⟨q, rest, -, -, rfl⟩ := popMail_some popped
  refine (update s p fun q => ?_).trans (mark (.received p msg))
  rfl

theorem park (s : Scheduler) (p : Pid) (m : Machine) : Still s (s.park p m) := by
  unfold Scheduler.park
  split
  · rename_i popped
    obtain ⟨q, rest, -, -, rfl⟩ := popMail_some popped
    refine (update s p fun q => ?_).trans (hand _ p m _)
    rfl
  · exact update s p fun _ => rfl

theorem begin (s : Scheduler) (p : Pid) (rest : Queue Pid) : Still s (s.begin p rest) :=
  (apart s ..).trans (update _ p fun _ => rfl)

theorem logExit (s : Scheduler) (p : Pid) (q : Process) (exit : Exit) :
    Still s (s.logExit p q exit) := by
  unfold Scheduler.logExit
  simp only
  split
  · exact log s _ _ (by decide)
  · exact log s _ _ (by decide)

theorem release (s : Scheduler) (p : Pid) : Still s (s.release p) := apart s ..

end Still

/-! ### The invariant -/

/-- The lists of watchers and the journal agree with what happened, and no notice was refused. -/
structure Ledger (s : Scheduler) : Prop where
  known : ∀ {w t}, s.history.watchedInTime w t → s.HasIssued w ∧ s.HasIssued t
  listed : ∀ {t : Pid} {q}, s.procs[t]? = some q →
    q.watchers.Nodup ∧ ∀ w, w ∈ q.watchers ↔ s.history.watchedInTime w t
  recorded : ∀ {t : Pid} {exit}, s.retired[t]? = some exit →
    ∃ r, s.journal.held? t = some r ∧ r.reason = exit.reason
  lossless : s.journal.Lossless
  writable : s.stopped = false → s.journal.closed = false
  unrefused : ∀ entry ∈ s.logs, entry.message ≠ failedNotice

/-- Watchers are told what is recorded, and owed no notice but those that are said. -/
structure Watching (owed : List (Pid × Pid)) (s : Scheduler) : Prop where
  ledger : Ledger s
  settles : s.history.Settles owed
  worded : ∀ {w t msg}, msg ∈ s.history.notices w t →
    ∃ exit, s.retired[t]? = some exit ∧ msg = exitMessage t exit.reason

theorem Ledger.alike (ledger : Ledger s) (alike : Alike s s')
    (asked : ∀ w t, s'.history.watchedInTime w t = s.history.watchedInTime w t) : Ledger s' := by
  constructor
  · intro w t watched
    rw [asked] at watched
    rw [alike.issued]
    exact ledger.known watched
  · intro t q there
    have kept := alike.watchers t
    rw [there] at kept
    obtain ⟨q₀, there₀, watchers⟩ := Option.map_eq_some_iff.mp kept.symm
    simp only [asked, ← watchers]
    exact ledger.listed there₀
  · intro t exit gone
    rw [alike.retired] at gone
    rw [alike.journal]
    exact ledger.recorded gone
  · rw [alike.journal]
    exact ledger.lossless
  · rw [alike.stopped, alike.journal]
    exact ledger.writable
  · intro entry member
    exact (alike.logs entry member).elim (ledger.unrefused entry) id

theorem Watching.still (watching : Watching owed s) (still : Still s s') : Watching owed s' := by
  have same := still.history.same
  refine ⟨watching.ledger.alike still.toAlike same.watchedInTime,
    watching.settles.quietly still.history, fun told => ?_⟩
  rw [same.notices] at told
  rw [still.retired]
  exact watching.worded told

theorem register_logs {m : Machine} {parent pid : Pid}
    (registered : s.register m parent = .ok (pid, s'))
    (unrefused : ∀ entry ∈ s.logs, entry.message ≠ failedNotice) :
    ∀ entry ∈ s'.logs, entry.message ≠ failedNotice := by
  unfold register at registered
  split at registered
  · cases registered
  · obtain ⟨-, rfl⟩ := Prod.mk.inj (Except.ok.inj registered)
    intro entry member
    rcases List.mem_cons.mp member with rfl | old
    · have other : ascii "process registered" ≠ failedNotice := by decide
      exact other
    · exact unrefused entry old

/-- Nobody watches a process that was not there. -/
theorem Watching.born {m : Machine} {parent pid : Pid} (watching : Watching owed s)
    (tables : Tables phase s) (registered : s.register m parent = .ok (pid, s')) :
    Watching owed s' := by
  have logs := register_logs registered watching.ledger.unrefused
  obtain ⟨rfl, changed⟩ := register_ok registered
  have issued : ∀ p, s'.HasIssued p ↔ s.pids.pid (s.issued + 1) = p ∨ s.HasIssued p :=
    hasIssued_succ (by rw [changed]) (by rw [changed])
  have unissued : ¬ s.HasIssued (s.pids.pid (s.issued + 1)) := by
    rw [tables.issued]
    exact not_or.mpr (hasIssued_next tables)
  generalize s.pids.pid (s.issued + 1) = pid at *
  have retired : s'.retired = s.retired := by rw [changed]
  have journal : s'.journal = s.journal := by rw [changed]
  have history : s'.history = .registered pid :: s.history := by rw [changed]
  have quietly : Quietly s.history s'.history := by
    rw [history]
    exact .single (.registered pid)
  have same := quietly.same
  refine ⟨?_, watching.settles.quietly quietly, fun told => ?_⟩
  · constructor
    · intro w t asked
      rw [same.watchedInTime] at asked
      rw [issued, issued]
      exact (watching.ledger.known asked).imp .inr .inr
    · intro t q there
      simp only [same.watchedInTime]
      rw [changed, Std.TreeMap.getElem?_insert] at there
      split at there
      · rename_i here
        rw [Std.compare_eq_iff_eq] at here
        subst here
        obtain rfl := Option.some.inj there
        refine ⟨.nil, fun w => ⟨(fun listed => by cases listed), fun asked => ?_⟩⟩
        exact absurd (watching.ledger.known asked).2 unissued
      · exact watching.ledger.listed there
    · intro t exit gone
      rw [retired] at gone
      rw [journal]
      exact watching.ledger.recorded gone
    · rw [journal]
      exact watching.ledger.lossless
    · rw [journal, changed]
      exact watching.ledger.writable
    · exact logs
  · rw [same.notices] at told
    rw [retired]
    exact watching.worded told

/-! ### Notices -/

/-- A message to a process that is there or was is not refused. -/
theorem Tables.send_issued (tables : Tables phase s) (issued : s.HasIssued w) (sender : Pid)
    (msg : Value) : ∃ s', s.send sender w msg = .ok s' := by
  rcases (tables.issued w).mp issued with there | gone
  · obtain ⟨q, found⟩ := mem_procs.mp there
    simp [send, process?, found]
  · have absent := not_mem_procs.mp fun there => tables.apart w there gone
    simp [send, process?, absent, isRetired_iff.mpr gone]

theorem notify_issued (tables : Tables phase s) (issued : s.HasIssued w) (t : Pid)
    (reason : Value) :
    ∃ s', Still (s.mark (.sent t w (exitMessage t reason))) s' ∧
      s.notify t reason w = s'.mark (.notified t w (exitMessage t reason)) := by
  obtain ⟨s', sent⟩ := tables.send_issued issued t (exitMessage t reason)
  exact ⟨s', .sent sent, by simp only [notify, sent]⟩

theorem Watching.notify (watching : Watching ((w, t) :: owed) s) (tables : Tables phase s)
    (issued : s.HasIssued w) (gone : s.retired[t]? = some exit) :
    Watching owed (s.notify t exit.reason w) := by
  have ended : s.history.hasEnded t := (tables.hasEnded_iff t).mpr (mem_retired gone)
  obtain ⟨s', still, told⟩ := notify_issued tables issued t exit.reason
  have same := still.history.same
  rw [told]
  refine ⟨?_, watching.settles.notified ended still.history, fun {w' t' msg} told => ?_⟩
  · have sent : Alike s s' := (Alike.mark s _).trans still.toAlike
    exact watching.ledger.alike (sent.trans (.mark s' _)) same.watchedInTime
  · change ∃ exit, s'.retired[t']? = some exit ∧ _
    rw [still.retired]
    change msg ∈ History.notices w' t' (.notified t w _ :: s'.history) at told
    rw [History.notices, same.notices] at told
    split at told
    · rename_i here
      obtain ⟨rfl, rfl⟩ := here
      rcases List.mem_cons.mp told with rfl | old
      · exact ⟨exit, gone, rfl⟩
      · exact watching.worded old
    · exact watching.worded told

/-- One after the other, watchers get what they are owed. -/
theorem Watching.notifyAll {watchers : List Pid} (watching : Watching (watchers.map (·, t)) s)
    (sound : Sound phase s) (issued : ∀ w ∈ watchers, s.HasIssued w)
    (gone : s.retired[t]? = some exit) :
    Watching [] (watchers.foldl (fun s w => s.notify t exit.reason w) s) := by
  induction watchers generalizing s with
  | nil => exact watching
  | cons w watchers ih =>
    have here := issued w (by simp)
    obtain ⟨s', still, told⟩ := notify_issued sound.1 here t exit.reason
    have next := watching.notify sound.1 here gone
    have sound' := steady_sound.changes sound (changes_notify s t exit.reason w)
    rw [told] at next sound'
    rw [List.foldl_cons, told]
    refine ih next sound' (fun w' member => ?_) ?_
    · have before := issued w' (by simp [member])
      exact still.issued.symm ▸ before
    · change s'.retired[t]? = some exit
      rw [still.retired]
      exact gone

/-! ### The journal -/

/-- Only the journal's own counters change when a record is looked up. -/
theorem Watching.recordedReason (watching : Watching owed s) (gone : s.retired[t]? = some exit) :
    ∃ journal, s.recordedReason t = (exit.reason, { s with journal }.tick) ∧
      Watching owed { s with journal }.tick := by
  obtain ⟨ledger, settles, worded⟩ := watching
  obtain ⟨r, held, reason⟩ := ledger.recorded gone
  obtain ⟨journal, found, lossless, closed, same⟩ := ledger.lossless.lookup held s.clock
  have looked : s.recordedReason t = (exit.reason, { s with journal }.tick) := by
    simp only [Scheduler.recordedReason, found]
    simp [reason]
  refine ⟨journal, looked, ⟨ledger.known, ledger.listed, fun {t' exit'} gone' => ?_, lossless,
    fun going => ?_, ledger.unrefused⟩, settles, worded⟩
  · change ∃ r, journal.held? t' = some r ∧ _
    rw [same]
    exact ledger.recorded gone'
  · exact closed.trans (ledger.writable going)

theorem Watching.recordExit (watching : Watching owed s) (staying : p ∉ s.retired)
    (going : s.stopped = false) (reason : Value) :
    Watching owed (s.recordExit p reason) ∧
      (∃ r, (s.recordExit p reason).journal.held? p = some r ∧ r.reason = reason) := by
  obtain ⟨ledger, settles, worded⟩ := watching
  obtain ⟨journal, made, lossless, writable, held⟩ :=
    ledger.lossless.record (ledger.writable going) s.clock p reason none
  have entered : s.recordExit p reason = { s with journal }.tick := by
    simp only [Scheduler.recordExit, made]
  rw [entered]
  refine ⟨⟨⟨ledger.known, ledger.listed, fun {t exit} gone => ?_, lossless, fun _ => writable,
    ledger.unrefused⟩, settles, worded⟩, ⟨p, reason, Int64.ofNat s.clock⟩, ?_, rfl⟩
  · have gone : s.retired[t]? = some exit := gone
    have other : p ≠ t := by
      rintro rfl
      exact staying (mem_retired gone)
    change ∃ r, journal.held? t = some r ∧ _
    rw [held, if_neg other]
    exact ledger.recorded gone
  · change journal.held? p = _
    rw [held, if_pos rfl]
    rfl

/-! ### Watches -/

theorem mem_addWatcher (q : Process) (w w' : Pid) :
    w' ∈ (q.addWatcher w).watchers ↔ w = w' ∨ w' ∈ q.watchers := by
  unfold Process.addWatcher
  split
  · rename_i there
    rw [List.contains_iff_mem] at there
    constructor
    · exact .inr
    · rintro (rfl | member)
      · exact there
      · exact member
  · simp [or_comm, eq_comm]

theorem nodup_addWatcher (once : q.watchers.Nodup) (w : Pid) : (q.addWatcher w).watchers.Nodup := by
  unfold Process.addWatcher
  split
  · exact once
  · rename_i absent
    rw [List.contains_iff_mem] at absent
    rw [List.nodup_append]
    refine ⟨once, by simp, ?_⟩
    intro a member b last
    obtain rfl := List.mem_singleton.mp last
    rintro rfl
    exact absent member

/-- A live target enters the watcher into its list. -/
theorem Watching.watch_live (watching : Watching owed s) (tables : Tables phase s)
    (issued : s.HasIssued w) (there : t ∈ s.procs) :
    Watching owed ((s.update t (·.addWatcher w)).mark (.watched w t)) := by
  have going := tables.not_ended (tables.apart t there)
  have asked : ∀ w' t', History.watchedInTime w' t' (.watched w t :: s.history) ↔
      (w = w' ∧ t = t') ∨ s.history.watchedInTime w' t' := by
    intro w' t'
    rw [History.watchedInTime, Bool.or_eq_true, decide_eq_true_eq]
    constructor
    · exact .imp_left fun here => ⟨here.1, here.2.1⟩
    · rintro (⟨rfl, rfl⟩ | before)
      · exact .inl ⟨rfl, rfl, by simp [going]⟩
      · exact .inr before
  obtain ⟨ledger, settles, worded⟩ := watching
  -- the list and the history get the watcher together, unless both have it
  refine ⟨?_, settles.watched_live going w, worded⟩
  refine ⟨fun {w' t'} watched => ?_, fun {t' q} found => ?_, ledger.recorded, ledger.lossless,
    ledger.writable, ledger.unrefused⟩
  · rcases (asked w' t').mp watched with ⟨rfl, rfl⟩ | before
    · exact ⟨issued, (tables.issued t).mpr (.inl there)⟩
    · exact ledger.known before
  · change (s.update t _).procs[t']? = some q at found
    change _ ∧ ∀ w', w' ∈ q.watchers ↔ History.watchedInTime w' t' (.watched w t :: s.history)
    simp only [asked]
    rw [procs_update] at found
    split at found
    · rename_i same
      subst same
      obtain ⟨q₀, found₀, rfl⟩ := Option.map_eq_some_iff.mp found
      obtain ⟨once, members⟩ := ledger.listed found₀
      refine ⟨nodup_addWatcher once w, fun w' => ?_⟩
      rw [mem_addWatcher, members]
      simp
    · rename_i other
      obtain ⟨once, members⟩ := ledger.listed found
      refine ⟨once, fun w' => ?_⟩
      rw [members]
      simp [other]

/-- A watch that comes too late makes a notice due at once. -/
theorem Watching.watch_late (watching : Watching owed s) (ended : s.history.hasEnded t) (w : Pid) :
    Watching ((w, t) :: owed) (s.mark (.watched w t)) := by
  obtain ⟨ledger, settles, worded⟩ := watching
  refine ⟨ledger.alike (.mark s _) fun w' t' => ?_, settles.watched_late ended w, worded⟩
  change History.watchedInTime w' t' (.watched w t :: s.history) = _
  rw [History.watchedInTime, Bool.or_eq_right_iff_imp, decide_eq_true_eq]
  rintro ⟨-, rfl, going⟩
  exact absurd ended going

theorem retired_of_isRetired (gone : s.isRetired t) : ∃ exit, s.retired[t]? = some exit :=
  Option.isSome_iff_exists.mp (Std.TreeMap.mem_iff_isSome_getElem?.mp (isRetired_iff.mp gone))

theorem Watching.watch (watching : Watching [] s) (sound : Sound phase s) (issued : s.HasIssued w)
    (watched : s.watch w t = .ok s') : Watching [] s' := by
  unfold Scheduler.watch process? at watched
  split at watched
  · rename_i q there
    obtain rfl := Except.ok.inj watched
    exact watching.watch_live sound.1 issued (mem_procs.mpr ⟨q, there⟩)
  split at watched
  · rename_i gone
    obtain ⟨exit, found⟩ := retired_of_isRetired gone
    obtain ⟨journal, looked, later⟩ := watching.recordedReason found
    rw [looked] at watched
    obtain rfl := Except.ok.inj watched
    have ended := (sound.1.hasEnded_iff t).mpr (mem_retired found)
    have sound' : Sound phase ({ s with journal }.tick.mark (.watched w t)) :=
      (sound.change (.aside s.logs s.printed _ journal s.limiter)).change (.noted rfl)
    exact (later.watch_late ended w).notify sound'.1 issued found
  · cases watched

/-! ### Ends -/

/-- At an end every watcher on the list is owed a notice. -/
theorem Watching.bury (watching : Watching [] s) (tables : Tables (.running p) s)
    (there : s.procs[p]? = some q)
    (entered : ∃ r, s.journal.held? p = some r ∧ r.reason = exit.reason) :
    Watching (q.watchers.map (·, p)) (s.bury p q exit) := by
  have going := tables.not_ended (tables.apart p (tables.active p rfl))
  obtain ⟨ledger, settles, worded⟩ := watching
  obtain ⟨once, members⟩ := ledger.listed there
  refine ⟨⟨ledger.known, fun {t q'} found => ?_, fun {t exit'} gone => ?_, ledger.lossless,
    ledger.writable, ledger.unrefused⟩, settles.finalized going once members _,
    fun {w t msg} told => ?_⟩
  · change (s.procs.erase p)[t]? = some q' at found
    rw [Std.TreeMap.getElem?_erase] at found
    split at found
    · cases found
    · exact ledger.listed found
  · change (s.retired.insert p exit)[t]? = some exit' at gone
    rw [Std.TreeMap.getElem?_insert] at gone
    split at gone
    · rename_i same
      obtain rfl := Std.compare_eq_iff_eq.mp same
      obtain rfl := Option.some.inj gone
      exact entered
    · exact ledger.recorded gone
  · obtain ⟨exit', gone, same⟩ := worded told
    have other : p ≠ t := by
      rintro rfl
      exact tables.apart p (tables.active p rfl) (mem_retired gone)
    refine ⟨exit', ?_, same⟩
    change (s.retired.insert p exit)[t]? = _
    simp only [Std.TreeMap.getElem?_insert, Std.compare_eq_iff_eq, if_neg other, gone]

theorem Watching.retire (watching : Watching [] s) (sound : Sound (.running p) s)
    (there : s.procs[p]? = some q) (going : s.stopped = false) (exit : Exit) :
    Watching [] (s.retire p q exit) := by
  have staying := sound.1.apart p (sound.1.active p rfl)
  obtain ⟨recorded, entered⟩ := watching.recordExit staying going exit.reason
  have sound₁ := steady_sound.changes sound (changes_recordExit s p exit.reason)
  have there₁ : (s.recordExit p exit.reason).procs[p]? = some q := by
    rw [procs_recordExit]
    exact there
  have buried := recorded.bury sound₁.1 there₁ entered
  have sound₂ := sound₁.buried exit there₁
  have issued : ∀ w ∈ q.watchers, (s.recordExit p exit.reason).HasIssued w := by
    intro w member
    exact (recorded.ledger.known (((recorded.ledger.listed there₁).2 w).mp member)).1
  have still := Still.logExit ((s.recordExit p exit.reason).bury p q exit) p q exit
  have sound₃ := steady_sound.changes sound₂ (changes_logExit _ p q exit)
  refine Watching.still ?_ (.release _ p)
  refine (buried.still still).notifyAll sound₃ (fun w member => ?_) ?_
  · rw [still.issued]
    exact issued w member
  · rw [still.retired]
    exact Std.TreeMap.getElem?_insert_self

/-! ### Whole runs -/

theorem fork_ok {birth : Birth} {child : Machine} {pid : Pid}
    (forked : s.fork p birth child = .ok (pid, s')) :
    ∃ s₁, s.register child p = .ok (pid, s₁) ∧ Still s₁ s' := by
  unfold fork at forked
  cases registered : s.register child p with
  | error f => simp [registered, Except.map] at forked
  | ok made =>
    simp only [registered, Except.map, Except.ok.injEq, Prod.mk.injEq] at forked
    obtain ⟨rfl, rfl⟩ := forked
    refine ⟨made.2, rfl, .note made.2 _ _ _ ?_⟩
    cases birth <;> decide

/-- What a process does in its slice. -/
theorem keeps_watching (p : Pid) :
    Machine.Keeps (world p) fun s => Sound (.running p) s ∧ Watching [] s where
  print {text s} holds :=
    ⟨holds.1.change (.aside s.logs (text :: s.printed) s.clock s.journal s.limiter),
      holds.2.still (.apart s ..)⟩
  send acting sent holds := by
    obtain ⟨sound, watching⟩ := holds
    obtain rfl := Option.some.inj acting
    have done := mapError_eq_ok.mp sent
    have going := sound.1.not_ended (sound.1.apart p (sound.1.active p rfl))
    exact ⟨steady_sound.changes sound (changes_send done), watching.still (.send going done)⟩
  receive acting received holds := by
    obtain ⟨sound, watching⟩ := holds
    obtain rfl := Option.some.inj acting
    exact ⟨steady_sound.changes sound (changes_receive received),
      watching.still (.receive received)⟩
  fork acting runnable forked holds := by
    obtain ⟨sound, watching⟩ := holds
    obtain rfl := Option.some.inj acting
    have done := mapError_eq_ok.mp forked
    obtain ⟨s₁, registered, still⟩ := fork_ok done
    exact ⟨steady_sound.changes sound (changes_fork runnable done),
      (watching.born sound.1 registered).still still⟩
  watch acting watched holds := by
    obtain ⟨sound, watching⟩ := holds
    obtain rfl := Option.some.inj acting
    have done := mapError_eq_ok.mp watched
    have issued := (sound.1.issued p).mpr (.inl (sound.1.active p rfl))
    exact ⟨steady_sound.changes sound (changes_watch done), watching.watch sound issued done⟩

theorem Watching.slice (watching : Watching [] s) (sound : Sound .between s)
    (stepped : s.step? = some (p, s')) : Watching [] s' := by
  obtain ⟨rest, q, going, popped, -, -, ended⟩ := sound.step_cases stepped
  have begun : Watching [] (s.begin p rest) := watching.still (.begin s p rest)
  have run : Watching [] (s.runFrom p rest q).state :=
    ((keeps_watching p).run s.slice ⟨sound.begin popped, begun⟩).2
  have ticked := run.still (.tick _)
  cases ended with
  | yielded =>
    refine (ticked.still (.update _ p fun q => ?_)).still (.enqueue _ p)
    rfl
  | parked => exact ticked.still (.park _ p _)
  | retired _ there =>
    have changed := changes_run s.machine q.machine p s.slice (s.begin p rest)
    have settings := (Undisturbed.changes (p := p) (sound.begin popped) changed).settings
    exact ticked.retire (sound.run_ticked q popped) there (settings.stopped.trans going) _

theorem not_issued_nil (s : Scheduler) : ¬ s.HasIssued Pid.nil := by
  rintro ⟨n, -, -, same⟩
  exact s.pids.real n same.symm

theorem Watching.stopped (watching : Watching [] s) : Watching [] s.stop := by
  rcases stop_cases s with same | ⟨journal, closed, same⟩
  · rw [same]
    exact watching
  · obtain ⟨ledger, settles, worded⟩ := watching
    rw [same]
    refine Watching.still ?_ (.log _ _ _ (by decide))
    rcases closed with rfl | rfl
    · exact ⟨⟨ledger.known, ledger.listed, ledger.recorded, ledger.lossless, nofun,
        ledger.unrefused⟩, settles, worded⟩
    · exact ⟨⟨ledger.known, ledger.listed, ledger.recorded, ledger.lossless.closed, nofun,
        ledger.unrefused⟩, settles, worded⟩

theorem lasting_watching : Lasting (Watching []) where
  slice sound watching stepped := watching.slice sound stepped
  spawn sound watching made := watching.born sound.1 made
  send {s s' receiver msg} sound watching sent := by
    have unissued := not_issued_nil s
    rw [sound.1.issued] at unissued
    have going := sound.1.not_ended (not_or.mp unissued).2
    exact watching.still (.send going sent)
  info {s s' p info} sound watching told := by
    rcases info_ok told with rfl | ⟨gone, rfl⟩
    · exact watching
    · obtain ⟨exit, found⟩ := retired_of_isRetired gone
      obtain ⟨journal, looked, later⟩ := watching.recordedReason found
      rw [looked]
      exact later
  start {s s'} sound watching done := by
    obtain ⟨attrs, rfl⟩ := start_ok done
    exact watching.still ((Still.apart s ..).trans (.log _ _ _ (by decide)))
  stop sound watching := watching.stopped

theorem create_watching (table : SyscallTable) (slice maxFrames : Int) {journal : Journal}
    (ownsJournal : Bool) (workers clock : Nat) (pids : Pid.Source) (lossless : journal.Lossless)
    (writable : journal.closed = false) :
    Watching [] (create table slice maxFrames journal ownsJournal workers clock pids) := by
  refine ⟨⟨?_, ?_, ?_, lossless, fun _ => writable, ?_⟩, History.settles_nil, ?_⟩
  · simp [create, History.watchedInTime]
  · simp [create]
  · simp [create]
  · simp [create]
  · simp [create, History.notices]

/-- Nothing is owed between slices, nor between two dispatches of a slice. -/
theorem Watching.moment {first : Scheduler} (watching : Watching [] first)
    (sound : Sound .between first) (moment : Moment first s) :
    ∃ phase, Sound phase s ∧ Watching [] s := by
  cases moment with
  | between requests =>
    exact ⟨.between, sound.serveAll requests, lasting_watching.serveAll sound watching requests⟩
  | @within requests p rest q n c going popped there reached =>
    have sound' := sound.serveAll requests
    have begun := (lasting_watching.serveAll sound watching requests).still (.begin _ p rest)
    exact ⟨.running p, (keeps_watching p).iterate reached ⟨sound'.begin popped, begun⟩⟩

end ProcLisp.Scheduler
