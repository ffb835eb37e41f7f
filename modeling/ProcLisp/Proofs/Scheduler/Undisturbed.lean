import ProcLisp.Proofs.Scheduler.Lasting

/-!
# What others do to a process

While a process does not wait, other processes and requests from outside only add to its mail and
its watchers. The ready queue grows at its end, so that a process in it comes closer to its head
with every slice.
-/

namespace ProcLisp.Scheduler

open Relation (ReflTransGen)

variable {phase : Phase} {s s' s'' : Scheduler} {p r : Pid}

/-- The machine's configuration, the length of slices, and whether slices are run at all. -/
structure SameSettings (s s' : Scheduler) : Prop where
  machine : s'.machine = s.machine
  slice : s'.slice = s.slice
  stopped : s'.stopped = s.stopped

/-- Process `p` is where it was, unless it waited, with the same machine; or is gone as before. -/
structure Undisturbed (p : Pid) (s s' : Scheduler) : Prop where
  settings : SameSettings s s'
  exit : s'.retired[p]? = s.retired[p]?
  process : ∀ {q}, s.procs[p]? = some q → q.state ≠ .blocked →
    ∃ q', s'.procs[p]? = some q' ∧ q'.state = q.state ∧ q'.machine = q.machine
  ready : ∃ extra, s'.ready.toList = s.ready.toList ++ extra

theorem Sound.bury_recorded {q : Process} (sound : Sound (.running p) s)
    (there : s.procs[p]? = some q) (exit : Exit) :
    Sound (.ending p) ((s.recordExit p exit.reason).bury p q exit) := by
  have recorded := steady_sound.changes sound (changes_recordExit s p exit.reason)
  exact recorded.buried exit (by rw [procs_recordExit]; exact there)

namespace Undisturbed

theorem refl (p : Pid) (s : Scheduler) : Undisturbed p s s :=
  ⟨⟨rfl, rfl, rfl⟩, rfl, fun there _ => ⟨_, there, rfl, rfl⟩, [], by simp⟩

theorem trans (first : Undisturbed p s s') (second : Undisturbed p s' s'') :
    Undisturbed p s s'' := by
  obtain ⟨⟨machine, slice, stopped⟩, exit, process, extra, ready⟩ := first
  obtain ⟨⟨machine', slice', stopped'⟩, exit', process', extra', ready'⟩ := second
  refine ⟨⟨machine'.trans machine, slice'.trans slice, stopped'.trans stopped⟩,
    exit'.trans exit, fun there awake => ?_, extra ++ extra', by rw [ready', ready, List.append_assoc]⟩
  obtain ⟨q₁, there₁, state₁, machine₁⟩ := process there awake
  obtain ⟨q₂, there₂, state₂, machine₂⟩ := process' there₁ (by rwa [state₁])
  exact ⟨q₂, there₂, state₂.trans state₁, machine₂.trans machine₁⟩

/-- What leaves both tables alone. -/
theorem of_eq (settings : SameSettings s s') (procs : s'.procs = s.procs)
    (retired : s'.retired = s.retired) (ready : s'.ready = s.ready) : Undisturbed p s s' :=
  ⟨settings, by rw [retired], fun {q} there _ => ⟨q, by rw [procs]; exact there, rfl, rfl⟩, [],
    by simp [ready]⟩

/-- A process is changed, and maybe put into the queue. -/
theorem update (f : Process → Process) (extra : List Pid) (settings : SameSettings s s')
    (procs : s'.procs = (s.update r f).procs) (retired : s'.retired = s.retired)
    (ready : s'.ready.toList = s.ready.toList ++ extra)
    (kept : r = p → ∀ {q}, s.procs[p]? = some q → q.state ≠ .blocked →
      (f q).state = q.state ∧ (f q).machine = q.machine) : Undisturbed p s s' := by
  refine ⟨settings, by rw [retired], fun {q} there awake => ?_, extra, ready⟩
  rw [procs, procs_update]
  split
  · rename_i same
    exact ⟨f q, by rw [there]; rfl, kept same there awake⟩
  · exact ⟨q, there, rfl, rfl⟩

/-- A message is only handed to another process, or to one that waits. -/
theorem hand (m : Machine) (msg : Value)
    (waits : r = p → ∀ {q}, s.procs[p]? = some q → q.state = .blocked) :
    Undisturbed p s (s.hand r m msg) := by
  unfold Scheduler.hand
  split
  · exact update _ [r] ⟨rfl, rfl, rfl⟩ rfl rfl (Queue.toList_push _ _)
      fun same {q} there awake => absurd (waits same there) awake
  · exact update _ [r] ⟨rfl, rfl, rfl⟩ rfl rfl (Queue.toList_push _ _)
      fun same {q} there awake => absurd (waits same there) awake

theorem born {m : Machine} {parent pid : Pid} (tables : Tables phase s)
    (registered : s.register m parent = .ok (pid, s')) : Undisturbed p s s' := by
  obtain ⟨rfl, changed⟩ := register_ok registered
  obtain ⟨absent, -⟩ := hasIssued_next tables
  generalize s.pids.pid (s.issued + 1) = pid at absent changed
  rw [changed]
  refine ⟨⟨rfl, rfl, rfl⟩, rfl, fun {q} there _ => ⟨q, ?_, rfl, rfl⟩, [pid], Queue.toList_push _ _⟩
  rw [Std.TreeMap.getElem?_insert, if_neg]
  · exact there
  · rw [Std.compare_eq_iff_eq]
    rintro rfl
    exact absent (mem_procs.mpr ⟨q, there⟩)

theorem change (tables : Tables phase s) (change : Change s s') : Undisturbed p s s' := by
  cases change with
  | aside => exact of_eq ⟨rfl, rfl, rfl⟩ rfl rfl rfl
  | watched target watcher =>
    refine update _ [] ⟨rfl, rfl, rfl⟩ rfl rfl (by simp [Scheduler.update]) fun _ {q} _ _ => ?_
    unfold Process.addWatcher
    split <;> exact ⟨rfl, rfl⟩
  | noted => exact of_eq ⟨rfl, rfl, rfl⟩ rfl rfl rfl
  | mailed sender msg there busy =>
    exact update _ [] ⟨rfl, rfl, rfl⟩ rfl rfl (by simp [Scheduler.update, mark])
      fun _ _ _ _ => ⟨rfl, rfl⟩
  | @woken receiver q sender msg there parked =>
    have marked : Undisturbed p s (s.mark (.sent sender receiver msg)) :=
      of_eq ⟨rfl, rfl, rfl⟩ rfl rfl rfl
    refine marked.trans (hand q.machine msg ?_)
    rintro rfl q' there'
    obtain rfl := Option.some.inj (there.symm.trans there')
    exact parked
  | lost sender msg absent gone => exact of_eq ⟨rfl, rfl, rfl⟩ rfl rfl rfl
  | taken there first =>
    exact update _ [] ⟨rfl, rfl, rfl⟩ rfl rfl (by simp [Scheduler.update, mark])
      fun _ _ _ _ => ⟨rfl, rfl⟩
  | born runnable registered => exact born tables registered

theorem changes (sound : Sound phase s) (changed : Changes s s') : Undisturbed p s s' := by
  have both : Sound phase s' ∧ Undisturbed p s s' := by
    induction changed with
    | refl => exact ⟨sound, refl p s⟩
    | tail _ last ih => exact ⟨ih.1.change last, ih.2.trans (change ih.1.1 last)⟩
  exact both.2

/-! ### Slices -/

theorem begin (other : r ≠ p) (rest : Queue Pid) :
    Undisturbed p { s with ready := rest } (s.begin r rest) :=
  update _ [] ⟨rfl, rfl, rfl⟩ rfl rfl (by simp [Scheduler.begin, Scheduler.update])
    (absurd · other)

theorem tick (p : Pid) (s : Scheduler) : Undisturbed p s s.tick :=
  of_eq ⟨rfl, rfl, rfl⟩ rfl rfl rfl

theorem park (other : r ≠ p) (m : Machine) : Undisturbed p s (s.park r m) := by
  unfold Scheduler.park
  split
  · rename_i msg s₁ popped
    obtain ⟨q, rest, -, -, rfl⟩ := popMail_some popped
    have taken : Undisturbed p s (s.update r fun q => { q with mailbox := rest }) :=
      update _ [] ⟨rfl, rfl, rfl⟩ rfl rfl (by simp [Scheduler.update]) fun _ _ _ _ => ⟨rfl, rfl⟩
    exact taken.trans (hand m msg (absurd · other))
  · exact update _ [] ⟨rfl, rfl, rfl⟩ rfl rfl (by simp [Scheduler.update]) (absurd · other)

theorem bury (other : r ≠ p) (q : Process) (exit : Exit) :
    Undisturbed p s (s.bury r q exit) := by
  refine ⟨⟨rfl, rfl, rfl⟩, ?_, fun {q'} there _ => ⟨q', ?_, rfl, rfl⟩, [],
    by simp [Scheduler.bury, mark]⟩
  · change (s.retired.insert r exit)[p]? = _
    simp only [Std.TreeMap.getElem?_insert, Std.compare_eq_iff_eq, if_neg other]
  · change (s.procs.erase r)[p]? = _
    simp only [Std.TreeMap.getElem?_erase, Std.compare_eq_iff_eq, if_neg other]
    exact there

/-- What follows a burial. -/
theorem mourn {q : Process} (sound : Sound (.ending r) s) (exit : Exit) :
    Undisturbed p s ((q.watchers.foldl (fun s w => s.notify r exit.reason w)
      (s.logExit r q exit)).release r) := by
  have told := (changes_logExit s r q exit).trans (changes_notifyAll r exit.reason q.watchers _)
  exact (changes sound told).trans (of_eq ⟨rfl, rfl, rfl⟩ rfl rfl rfl)

theorem recordExit (sound : Sound phase s) (reason : Value) :
    Undisturbed p s (s.recordExit r reason) := changes sound (changes_recordExit s r reason)

theorem retire {q : Process} (sound : Sound (.running r) s) (there : s.procs[r]? = some q)
    (other : r ≠ p) (exit : Exit) : Undisturbed p s (s.retire r q exit) := by
  have buried := sound.bury_recorded there exit
  exact ((recordExit sound exit.reason).trans (bury other q exit)).trans (mourn buried exit)

end Undisturbed

theorem retired_of_retire {q : Process} (sound : Sound (.running p) s)
    (there : s.procs[p]? = some q) (exit : Exit) :
    (s.retire p q exit).retired[p]? = some exit := by
  have buried := sound.bury_recorded there exit
  have kept := (Undisturbed.mourn (p := p) (q := q) buried exit).exit
  exact kept.trans Std.TreeMap.getElem?_insert_self

/-- What is done after the run of another process. -/
theorem SliceEnd.undisturbed {ran : Progress Scheduler} (ended : SliceEnd r ran s')
    (sound : Sound (.running r) ran.state.tick) (other : r ≠ p) : Undisturbed p ran.state s' := by
  refine (Undisturbed.tick p _).trans ?_
  cases ended with
  | yielded =>
    exact .update _ [r] ⟨rfl, rfl, rfl⟩ rfl rfl (Queue.toList_push _ _) (absurd · other)
  | parked => exact .park other _
  | retired _ there => exact .retire sound there other _

/-- A slice of another process brings `p` closer to the head of the queue, if it is queued. -/
theorem Sound.other_slice (sound : Sound .between s) (stepped : s.step? = some (r, s'))
    (other : r ≠ p) :
    ∃ rest, s.ready.pop? = some (r, rest) ∧ Undisturbed p { s with ready := rest } s' := by
  obtain ⟨rest, q, -, popped, -, -, ended⟩ := sound.step_cases stepped
  refine ⟨rest, popped, (Undisturbed.begin other rest).trans ?_⟩
  have run : Undisturbed p (s.begin r rest) (s.runFrom r rest q).state :=
    .changes (sound.begin popped) (changes_run _ _ _ _ _)
  exact run.trans (ended.undisturbed (sound.run_ticked q popped) other)

theorem step?_of_pop {rest : Queue Pid} (going : s.stopped = false)
    (popped : s.ready.pop? = some (r, rest)) : ∃ s', s.step? = some (r, s') := by
  simp [step?, going, popped]

theorem pop?_of_toList {ready : Queue Pid} {later : List Pid} (list : ready.toList = r :: later) :
    ∃ rest, ready.pop? = some (r, rest) := by
  cases popped : ready.pop? with
  | none => simp [Queue.toList_of_pop_none popped] at list
  | some pair =>
    rw [Queue.toList_of_pop popped] at list
    exact ⟨pair.2, by rw [← (List.cons.inj list).1]⟩

theorem Sound.slice_settings (sound : Sound .between s) (stepped : s.step? = some (r, s')) :
    SameSettings s s' := by
  -- whatever does not concern some other process
  have other : r ≠ ⟨r.val + 1⟩ := by
    intro same
    have values := congrArg Pid.val same
    simp at values
  obtain ⟨rest, -, kept⟩ := sound.other_slice stepped other
  exact ⟨kept.settings.machine, kept.settings.slice, kept.settings.stopped⟩

theorem Undisturbed.informed {info : ProcessInfo} (sound : Sound .between s)
    (told : s.info r = .ok (info, s')) : Undisturbed p s s' := by
  rcases info_ok told with rfl | ⟨-, rfl⟩
  · exact refl p s'
  · exact changes sound (changes_recordedReason s r)

end ProcLisp.Scheduler
