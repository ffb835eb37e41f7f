import ProcLisp.Proofs.Scheduler.Scenes

/-!
# What a letter does

Between two states at most one letter is sent, by a request, by a program or to a watcher. The
history enters it if its receiver is live, and what is handed on is what a process that waited now
returns. All else leaves mail alone.
-/

namespace ProcLisp.Scheduler

variable {phase : Phase} {s s' s'' : Scheduler} {p r t sender receiver : Pid} {q : Process}
  {msg reason : Value} {letter : Option Letter}

/-! ### What leaves mail alone -/

/-- What is to be known of a process if it is handed a message. -/
def standing? (s : Scheduler) (p : Pid) : Option (ProcessState × Machine) :=
  (s.procs[p]?).map fun q => (q.state, q.machine)

structure Untouched (s s' : Scheduler) : Prop where
  settings : s'.machine = s.machine
  standing : ∀ p, s'.standing? p = s.standing? p
  retired : ∀ p, p ∈ s'.retired ↔ p ∈ s.retired
  addressed : ∀ p, s'.history.addressed p = s.history.addressed p
  received : ∀ p, s'.history.received p = s.history.received p
  discarded : ∀ p, s'.history.discarded p = s.history.discarded p
  strays : s'.history.strays = s.history.strays

namespace Untouched

/-- Logs, output, the clock, the journal, the queue, the gates and the flags. -/
theorem of_eq (settings : s'.machine = s.machine) (procs : s'.procs = s.procs)
    (retired : s'.retired = s.retired) (history : s'.history = s.history) : Untouched s s' :=
  ⟨settings, fun p => by rw [standing?, procs, standing?], fun p => by rw [retired],
    fun p => by rw [history], fun p => by rw [history], fun p => by rw [history], by rw [history]⟩

theorem refl (s : Scheduler) : Untouched s s := of_eq rfl rfl rfl rfl

theorem trans (first : Untouched s s') (second : Untouched s' s'') : Untouched s s'' where
  settings := second.settings.trans first.settings
  standing p := (second.standing p).trans (first.standing p)
  retired p := (second.retired p).trans (first.retired p)
  addressed p := (second.addressed p).trans (first.addressed p)
  received p := (second.received p).trans (first.received p)
  discarded p := (second.discarded p).trans (first.discarded p)
  strays := second.strays.trans first.strays

theorem noted (s : Scheduler) {e : Event} (notice : e.isNotice) : Untouched s (s.mark e) := by
  cases e with
  | watched | notified =>
    exact ⟨rfl, fun _ => rfl, fun _ => .rfl, fun _ => rfl, fun _ => rfl, fun _ => rfl, rfl⟩
  | _ => cases notice

theorem standing?_update (s : Scheduler) (p : Pid) {f : Process → Process}
    (same : ∀ q, (f q).state = q.state ∧ (f q).machine = q.machine) (r : Pid) :
    (s.update p f).standing? r = s.standing? r := by
  unfold standing?
  rw [procs_update]
  split
  · cases s.procs[r]? <;> simp [same]
  · rfl

theorem watched (s : Scheduler) (target watcher : Pid) :
    Untouched s (s.update target (·.addWatcher watcher)) := by
  refine ⟨rfl, standing?_update s target fun q => ?_, fun _ => .rfl, fun _ => rfl, fun _ => rfl,
    fun _ => rfl, rfl⟩
  unfold Process.addWatcher
  split <;> exact ⟨rfl, rfl⟩

theorem mem_procs_iff (untouched : Untouched s s') (p : Pid) : p ∈ s'.procs ↔ p ∈ s.procs := by
  have same := untouched.standing p
  unfold standing? at same
  rw [Std.TreeMap.mem_iff_isSome_getElem?, Std.TreeMap.mem_iff_isSome_getElem?,
    ← Option.isSome_map, same, Option.isSome_map]

theorem machineOf? (untouched : Untouched s s') (p : Pid) :
    s'.machineOf? p = s.machineOf? p := by
  have same := congrArg (Option.map Prod.snd) (untouched.standing p)
  simpa [standing?, Scheduler.machineOf?, Function.comp_def] using same

end Untouched

/-! ### Letters -/

/-- Whoever waited in the table and is handed a message there. -/
def woken (s s' : Scheduler) (p : Pid) : List Value := View.gained p ⟨s, none⟩ ⟨s', none⟩

theorem gained_of_eq {v w : View} (same : w.machine? p = v.machine? p) : v.gained p w = [] := by
  unfold View.gained
  rw [same]
  cases v.machine? p with
  | none => rfl
  | some m => simp [Machine.gained?_self]

theorem received_asleep (same : s'.machineOf? p = s.machineOf? p)
    (history : s'.history.received p = s.history.received p) :
    s'.history.received p = s.history.received p ++ woken s s' p := by
  have none : woken s s' p = [] := gained_of_eq same
  rw [none, List.append_nil]
  exact history

theorem gained_of_awaits {v w : View} {m m' : Machine} (before : v.machine? p = some m)
    (awaits : m.awaits v.state.machine.table) (after : w.machine? p = some m')
    (returns : m'.control = .returning) : v.gained p w = [m'.val] := by
  unfold View.gained
  rw [before, after]
  simp [Machine.gained?, awaits, returns]

theorem gained_of_busy {v w : View} {m : Machine} (before : v.machine? p = some m)
    (busy : m.awaits v.state.machine.table = false) : v.gained p w = [] := by
  unfold View.gained Machine.gained?
  rw [before]
  cases w.machine? p with
  | none => rfl
  | some m' =>
    dsimp only
    split
    · simp [busy]
    · rfl

theorem gained_of_going {v w : View} {m' : Machine} (after : w.machine? p = some m')
    (going : m'.control ≠ .returning) : v.gained p w = [] := by
  unfold View.gained Machine.gained?
  rw [after]
  cases v.machine? p with
  | none => rfl
  | some m =>
    dsimp only
    split
    · contradiction
    · rfl

theorem gained_of_gone {v w : View} (after : w.machine? p = none) : v.gained p w = [] := by
  unfold View.gained
  rw [after]
  cases v.machine? p <;> rfl

theorem woken_of_waiting {m m' : Machine} (before : s.machineOf? p = some m)
    (waits : m.control = .waiting) (after : s'.machineOf? p = some m')
    (returns : m'.control = .returning) : woken s s' p = [m'.val] :=
  gained_of_awaits (v := ⟨s, none⟩) (w := ⟨s', none⟩) before (Machine.awaits_waiting waits) after
    returns

/-- Between two states a letter is sent, if there is one, and nothing else happens to mail. -/
structure Posted (letter : Option Letter) (s s' : Scheduler) : Prop where
  addressed : ∀ p, s'.history.addressed p = s.history.addressed p ++ delivered s p letter
  received : ∀ p, s'.history.received p = s.history.received p ++ woken s s' p
  discarded : ∀ p, s'.history.discarded p = s.history.discarded p
  strays : s'.history.strays = s.history.strays + astray s letter
  kept : ∀ p, p ∈ s.procs → p ∈ s'.procs
  /-- Nobody is disturbed who does not wait. -/
  awake : ∀ p state m, s.standing? p = some (state, m) → state ≠ .blocked →
    s'.machineOf? p = s.machineOf? p

theorem Untouched.posted (untouched : Untouched s s') : Posted none s s' where
  addressed p := (untouched.addressed p).trans (List.append_nil _).symm
  received p := received_asleep (untouched.machineOf? p) (untouched.received p)
  discarded := untouched.discarded
  strays := untouched.strays
  kept p := (untouched.mem_procs_iff p).mpr
  awake p _ _ _ _ := untouched.machineOf? p

theorem Posted.after (posted : Posted letter s s') (untouched : Untouched s' s'') :
    Posted letter s s'' where
  addressed p := (untouched.addressed p).trans (posted.addressed p)
  received p := by
    have same : woken s s'' p = woken s s' p := by
      simp only [woken, View.gained, View.machine?, untouched.machineOf?]
    rw [same]
    exact (untouched.received p).trans (posted.received p)
  discarded p := (untouched.discarded p).trans (posted.discarded p)
  strays := untouched.strays.trans posted.strays
  kept p there := (untouched.mem_procs_iff p).mpr (posted.kept p there)
  awake p state m standing busy :=
    (untouched.machineOf? p).trans (posted.awake p state m standing busy)

theorem Posted.before (untouched : Untouched s s') (posted : Posted letter s' s'') :
    Posted letter s s'' where
  addressed p := by
    have same : delivered s' p letter = delivered s p letter := by
      unfold delivered
      split <;> simp [untouched.mem_procs_iff]
    rw [posted.addressed, untouched.addressed, same]
  received p := by
    have same : woken s s'' p = woken s' s'' p := by
      simp only [woken, View.gained, View.machine?, untouched.machineOf?, untouched.settings]
    rw [same, posted.received, untouched.received]
  discarded p := (posted.discarded p).trans (untouched.discarded p)
  strays := by
    have same : astray s' letter = astray s letter := by
      unfold astray
      split <;> simp [untouched.retired]
    rw [posted.strays, untouched.strays, same]
  kept p there := posted.kept p ((untouched.mem_procs_iff p).mpr there)
  awake p state m standing busy :=
    (posted.awake p state m ((untouched.standing p).trans standing) busy).trans
      (untouched.machineOf? p)

theorem standing?_some (there : s.procs[p]? = some q) :
    s.standing? p = some (q.state, q.machine) := by
  simp [standing?, there]

theorem machineOf?_some (there : s.procs[p]? = some q) : s.machineOf? p = some q.machine := by
  simp [machineOf?, there]

theorem machineOf?_update (s : Scheduler) (p : Pid) {f : Process → Process}
    (same : ∀ q, (f q).machine = q.machine) (r : Pid) :
    (s.update p f).machineOf? r = s.machineOf? r := by
  unfold machineOf?
  rw [procs_update]
  split
  · cases s.procs[r]? <;> simp [same]
  · rfl

theorem machineOf?_update_of_ne (s : Scheduler) (f : Process → Process) (other : p ≠ r) :
    (s.update p f).machineOf? r = s.machineOf? r := by
  rw [machineOf?, procs_update, if_neg other, machineOf?]

theorem machineOf?_update_self (f : Process → Process) (there : s.procs[p]? = some q) :
    (s.update p f).machineOf? p = some (f q).machine := by
  rw [machineOf?, procs_update, if_pos rfl, there]
  rfl

theorem delivered_live (tables : Tables phase s) (live : receiver ∈ s.procs) (sender : Pid)
    (msg : Value) (p : Pid) :
    History.addressed p (.sent sender receiver msg :: s.history) =
      s.history.addressed p ++ delivered s p (some ⟨sender, receiver, msg⟩) := by
  rw [addressed_live tables live, delivered]
  by_cases same : receiver = p
  · subst same
    rw [if_pos rfl, if_pos ⟨rfl, live⟩]
  · rw [if_neg same, if_neg fun both => same both.1, List.append_nil]

theorem astray_live (tables : Tables phase s) (live : receiver ∈ s.procs) (sender : Pid)
    (msg : Value) : astray s (some ⟨sender, receiver, msg⟩) = 0 :=
  if_neg (tables.apart receiver live)

theorem posted_mailed (sound : Sound phase s) (there : s.procs[receiver]? = some q)
    (sender : Pid) (msg : Value) :
    Posted (some ⟨sender, receiver, msg⟩) s ((s.mark (.sent sender receiver msg)).update receiver
      fun q => { q with mailbox := q.mailbox.push msg }) := by
  have live : receiver ∈ s.procs := mem_procs.mpr ⟨q, there⟩
  have same : ∀ p, ((s.mark (.sent sender receiver msg)).update receiver
      fun q => { q with mailbox := q.mailbox.push msg }).machineOf? p = s.machineOf? p :=
    machineOf?_update _ receiver fun _ => rfl
  refine ⟨delivered_live sound.1 live sender msg, fun p => received_asleep (same p) rfl,
    fun _ => rfl, ?_, fun _ => mem_update.mpr, fun p _ _ _ _ => same p⟩
  rw [astray_live sound.1 live]
  exact strays_live sound.1 live sender msg

theorem posted_handed (sound : Sound phase s) (there : s.procs[receiver]? = some q)
    (parked : q.state = .blocked) (waits : q.machine.control = .waiting) (sender : Pid)
    (msg : Value) : Posted (some ⟨sender, receiver, msg⟩) s
      ((((s.mark (.sent sender receiver msg)).update receiver fun q' => { q' with
        machine := { q.machine with control := .returning, val := msg }
        state := .ready }).mark (.received receiver msg)).enqueue receiver) := by
  have live : receiver ∈ s.procs := mem_procs.mpr ⟨q, there⟩
  refine ⟨delivered_live sound.1 live sender msg, fun p => ?_, fun _ => rfl, ?_,
    fun _ => mem_update.mpr, fun p state m standing busy => ?_⟩
  · by_cases same : receiver = p
    · subst same
      have after := machineOf?_update_self (fun q' => { q' with
        machine := { q.machine with control := .returning, val := msg }, state := .ready }) there
      refine
        (if_pos rfl : History.received receiver (.received receiver msg :: s.history) = _).trans
          (congrArg _ ?_)
      exact (woken_of_waiting (machineOf?_some there) waits after rfl).symm
    · exact received_asleep (machineOf?_update_of_ne s _ same) (if_neg same)
  · rw [astray_live sound.1 live]
    exact strays_live sound.1 live sender msg
  · by_cases same : receiver = p
    · subst same
      rw [standing?_some there] at standing
      exact absurd parked ((Prod.mk.inj (Option.some.inj standing)).1 ▸ busy)
    · exact machineOf?_update_of_ne s _ same

theorem posted_dropped (tables : Tables phase s) (gone : receiver ∈ s.retired) (sender : Pid)
    (msg : Value) (limiter : Log.Limiter) (logs : List Log.Entry) :
    Posted (some ⟨sender, receiver, msg⟩) s { s with
      dropped := s.dropped + 1, history := .sent sender receiver msg :: s.history,
      limiter, logs } := by
  have outlived (p : Pid) : ¬ (receiver = p ∧ p ∈ s.procs) := by
    rintro ⟨rfl, live⟩
    exact tables.apart receiver live gone
  refine ⟨fun p => ?_, fun p => received_asleep rfl rfl, fun _ => rfl, ?_, fun _ => id,
    fun _ _ _ _ _ => rfl⟩
  · change History.addressed p (.sent sender receiver msg :: s.history) = _
    rw [History.addressed, delivered, if_neg (outlived p), List.append_nil, if_neg]
    rintro ⟨same, live⟩
    exact outlived p ⟨same, same ▸ (tables.isLive_iff receiver).mp (same ▸ live)⟩
  · change History.strays (.sent sender receiver msg :: s.history) = _
    rw [History.strays, if_pos ((tables.hasEnded_iff receiver).mpr gone), astray, if_pos gone]

theorem Delivers.posted (delivers : Delivers s sender receiver msg s') (sound : Sound phase s) :
    Posted (some ⟨sender, receiver, msg⟩) s s' := by
  cases delivers with
  | mailed there => exact posted_mailed sound there sender msg
  | handed there parked waits => exact posted_handed sound there parked waits sender msg
  | dropped gone limiter logs => exact posted_dropped sound.1 gone sender msg limiter logs

/-- A letter to a pid that was never issued is refused, and is no letter to anyone. -/
theorem Untouched.posted_nowhere (untouched : Untouched s s') (absent : receiver ∉ s.procs)
    (unretired : receiver ∉ s.retired) (sender : Pid) (msg : Value) :
    Posted (some ⟨sender, receiver, msg⟩) s s' := by
  obtain ⟨addressed, received, discarded, strays, kept, awake⟩ := untouched.posted
  refine ⟨fun p => ?_, received, discarded, ?_, kept, awake⟩
  · rw [addressed, delivered, if_neg]
    · rfl
    · rintro ⟨rfl, live⟩
      exact absent live
  · rw [strays, astray, if_neg unretired]
    rfl

theorem posted_send (sound : Sound phase s) (sender receiver : Pid) (msg : Value) :
    (∃ s', s.send sender receiver msg = .ok s' ∧ Posted (some ⟨sender, receiver, msg⟩) s s') ∨
      s.send sender receiver msg = .error (.unknownProcess receiver) ∧
        Posted (some ⟨sender, receiver, msg⟩) s s := by
  by_cases issued : s.HasIssued receiver
  · obtain ⟨s', sent, delivers⟩ := sound.send_delivers issued sender msg
    exact .inl ⟨s', sent, delivers.posted sound⟩
  · have refused := sound.send_unissued issued sender msg
    rw [sound.1.issued] at issued
    obtain ⟨absent, unretired⟩ := not_or.mp issued
    exact .inr ⟨refused, (Untouched.refl s).posted_nowhere absent unretired sender msg⟩

theorem untouched_log (s : Scheduler) (level : Log.Level) (message : String)
    (attrs : List (Bytes × Bytes)) : Untouched s (s.log level message attrs) :=
  .of_eq rfl rfl rfl rfl

theorem posted_notify (sound : Sound phase s) (target : Pid) (reason : Value) (watcher : Pid) :
    Posted (some ⟨target, watcher, exitMessage target reason⟩) s
      (s.notify target reason watcher) := by
  unfold notify
  rcases posted_send sound target watcher (exitMessage target reason) with
    ⟨s', sent, posted⟩ | ⟨refused, posted⟩
  · rw [sent]
    exact posted.after (.noted s' rfl)
  · rw [refused]
    exact posted.after (untouched_log s _ _ _)

theorem untouched_recordedReason (s : Scheduler) (p : Pid) :
    Untouched s (s.recordedReason p).2 := .of_eq rfl rfl rfl rfl

theorem letterOf?_watch (s : Scheduler) (p target : Pid) :
    s.letterOf? p .watch [.pid target] = if s.isRetired target then
      some ⟨target, p, exitMessage target (s.recordedReason target).1⟩ else none := rfl

theorem posted_watch (sound : Sound phase s) (target : Pid)
    (watched : s.watch p target = .ok s') :
    Posted (s.letterOf? p .watch [.pid target]) s s' := by
  unfold watch process? at watched
  rw [letterOf?_watch]
  cases there : s.procs[target]? with
  | some q =>
    have staying : ¬ s.isRetired target := by
      rw [isRetired_iff]
      exact sound.1.apart target (mem_procs.mpr ⟨q, there⟩)
    rw [there] at watched
    obtain rfl := Except.ok.inj watched
    rw [if_neg staying]
    exact ((Untouched.watched s target p).trans (.noted _ rfl)).posted
  | none =>
    rw [there] at watched
    dsimp only at watched ⊢
    split at watched
    · rename_i gone
      obtain rfl := Except.ok.inj watched
      rw [if_pos gone]
      have noted :=
        (untouched_recordedReason s target).trans (.noted _ (e := .watched p target) rfl)
      have sound' : Sound phase ((s.recordedReason target).2.mark (.watched p target)) :=
        (steady_sound.changes sound (changes_recordedReason s target)).change (.noted rfl)
      exact .before noted (posted_notify sound' target _ p)
    · cases watched

theorem woken_of_absent (absent : s.procs[p]? = none) (s' : Scheduler) : woken s s' p = [] := by
  simp [woken, View.gained, View.machine?, machineOf?, absent]

theorem posted_born {m : Machine} {parent pid : Pid} (tables : Tables phase s)
    (registered : s.register m parent = .ok (pid, s')) : Posted none s s' := by
  obtain ⟨rfl, changed⟩ := register_ok registered
  obtain ⟨unborn, -⟩ := hasIssued_next tables
  generalize s.pids.pid (s.issued + 1) = pid at *
  have found : ∀ r, pid ≠ r → s'.procs[r]? = s.procs[r]? := by
    intro r other
    rw [changed, Std.TreeMap.getElem?_insert, if_neg (by rwa [Std.compare_eq_iff_eq])]
  have history : s'.history = .registered pid :: s.history := by rw [changed]
  refine ⟨fun p => ?_, fun p => ?_, fun p => ?_, ?_, fun p there => ?_,
    fun p state m standing _ => ?_⟩
  · rw [history]
    exact (List.append_nil _).symm
  · have none : woken s s' p = [] := by
      by_cases same : pid = p
      · subst same
        exact woken_of_absent (not_mem_procs.mp unborn) s'
      · exact gained_of_eq (by simp only [View.machine?, machineOf?, found p same])
    rw [none, List.append_nil, history]
    rfl
  · rw [history]
    rfl
  · rw [history]
    rfl
  · rw [changed, Std.TreeMap.mem_insert]
    exact .inr there
  · have other : pid ≠ p := by
      rintro rfl
      simp [standing?, not_mem_procs.mp unborn] at standing
    simp only [machineOf?, found p other]

theorem posted_fork {birth : Birth} {child : Machine} {pid : Pid} (tables : Tables phase s)
    (forked : s.fork p birth child = .ok (pid, s')) : Posted none s s' := by
  obtain ⟨made, registered, same⟩ := exists_of_map_ok forked
  obtain ⟨rfl, rfl⟩ := Prod.mk.inj same
  exact (posted_born tables registered).after (.of_eq rfl rfl rfl rfl)

/-! ### Dispatches -/

section Perform

variable {cfg : Machine.Config} {m : Machine} {env : Env}

theorem posted_dispatch_send (sound : Sound phase s) (receiver : Pid) (msg : Value) :
    Posted (some ⟨p, receiver, msg.copy⟩) s
      (m.dispatch cfg (world p) (.primitive .send) [.pid receiver, msg] env s).state := by
  simp only [Machine.dispatch, world, Machine.perform]
  rcases posted_send sound p receiver msg.copy with ⟨s', sent, posted⟩ | ⟨refused, posted⟩
  · rw [sent]
    exact posted
  · rw [refused]
    exact posted

theorem posted_dispatch_watch (sound : Sound phase s) (target : Pid) :
    Posted (s.letterOf? p .watch [.pid target]) s
      (m.dispatch cfg (world p) (.primitive .watch) [.pid target] env s).state := by
  simp only [Machine.dispatch, world, Machine.perform]
  cases watched : s.watch p target with
  | ok s' => exact posted_watch sound target watched
  | error f =>
    have unretired : ¬ s.isRetired target := by
      intro gone
      have absent := not_mem_procs.mp fun there =>
        sound.1.apart target there (isRetired_iff.mp gone)
      simp [watch, process?, absent, gone] at watched
    rw [letterOf?_watch, if_neg unretired]
    exact (Untouched.refl s).posted

theorem posted_dispatch_fork (tables : Tables phase s) :
    Posted none s (m.dispatch cfg (world p) (.primitive .fork) [] env s).state := by
  simp only [Machine.dispatch, world, Machine.perform]
  cases forked : s.fork p .fork (m.ret (.bool true) env) with
  | ok made => exact posted_fork tables forked
  | error f => exact (Untouched.refl s).posted

theorem posted_dispatch_spawn (tables : Tables phase s) (v : Value) :
    Posted none s (m.dispatch cfg (world p) (.primitive .spawn) [v] env s).state := by
  have nothing : Posted none s s := (Untouched.refl s).posted
  cases v with
  | lambda tag params body captured =>
    simp only [Machine.dispatch, world, Machine.perform]
    split
    · exact nothing
    split
    · exact nothing
    · rename_i child made
      cases forked : s.fork p .spawn child with
      | ok made => exact posted_fork tables forked
      | error f => exact nothing
  | _ => exact nothing

/-- Whatever a process calls but `(wait)`, the letter that is sent is the one that is seen. -/
theorem posted_dispatch (sound : Sound phase s) {primitive : Primitive}
    (other : primitive ≠ .wait) (args : List Value) :
    Posted (s.letterOf? p primitive args) s
      (m.dispatch cfg (world p) (.primitive primitive) args env s).state := by
  have nothing : Posted none s s := (Untouched.refl s).posted
  cases primitive with
  | wait => exact absurd rfl other
  | pid => cases args <;> exact nothing
  | fork =>
    cases args with
    | nil => exact posted_dispatch_fork sound.1
    | cons => exact nothing
  | spawn =>
    obtain _ | ⟨v, _ | ⟨w, rest⟩⟩ := args
    · exact nothing
    · exact posted_dispatch_spawn sound.1 v
    · cases v <;> exact nothing
  | send =>
    obtain _ | ⟨v, _ | ⟨msg, _ | ⟨w, rest⟩⟩⟩ := args
    · exact nothing
    · cases v <;> exact nothing
    · cases v with
      | pid receiver => exact posted_dispatch_send sound receiver msg
      | _ => exact nothing
    · cases v <;> exact nothing
  | watch =>
    obtain _ | ⟨v, _ | ⟨w, rest⟩⟩ := args
    · exact nothing
    · cases v with
      | pid target => exact posted_dispatch_watch sound target
      | _ => exact nothing
    · cases v <;> exact nothing
  | terminate =>
    obtain _ | ⟨v, _ | ⟨w, rest⟩⟩ := args <;> exact nothing

end Perform

end ProcLisp.Scheduler
