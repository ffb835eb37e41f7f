import Mathlib.Data.List.Count
import ProcLisp.Proofs.Scheduler.Mail

/-!
# Watches and notices in a history

A history tells who asked to be told of whose end, in time or too late, and who was told. Notices
that are owed are counted beside those that were given: an end makes one due for each watcher, a
watch that comes too late makes one due at once, and nothing else does.
-/

namespace ProcLisp.History

/-- What `w` was told of the end of `t`, newest first. -/
def notices (w t : Pid) : History → List Value
  | [] => []
  | .notified target watcher msg :: earlier =>
    if watcher = w ∧ target = t then msg :: notices w t earlier else notices w t earlier
  | _ :: earlier => notices w t earlier

/-- What was sent to `w` in the name of `t` after the end of `t`, newest first. -/
def posthumous (w t : Pid) : History → List Value
  | [] => []
  | .sent sender receiver msg :: earlier =>
    if receiver = w ∧ sender = t ∧ hasEnded t earlier then msg :: posthumous w t earlier
    else posthumous w t earlier
  | _ :: earlier => posthumous w t earlier

/-- Whether `w` asked to be told of the end of `t` before `t` ended. -/
def watchedInTime (w t : Pid) : History → Bool
  | [] => false
  | .watched watcher target :: earlier =>
    decide (watcher = w ∧ target = t ∧ ¬ hasEnded t earlier) || watchedInTime w t earlier
  | _ :: earlier => watchedInTime w t earlier

/-- How often `w` asked to be told of the end of `t` after `t` had ended. -/
def lateWatches (w t : Pid) : History → Nat
  | [] => 0
  | .watched watcher target :: earlier =>
    if watcher = w ∧ target = t ∧ hasEnded t earlier then lateWatches w t earlier + 1
    else lateWatches w t earlier
  | _ :: earlier => lateWatches w t earlier

/-- Events that have no part in watching: births, and mail that is not sent in the name of a process
that has ended. -/
inductive Quiet (h : History) : Event → Prop where
  | registered (p : Pid) : Quiet h (.registered p)
  | received (p : Pid) (msg : Value) : Quiet h (.received p msg)
  | misdirected (p : Pid) (msg : Value) : Quiet h (.misdirected p msg)
  | sent {sender : Pid} (going : h.hasEnded sender = false) (receiver : Pid) (msg : Value) :
      Quiet h (.sent sender receiver msg)

/-- The second history goes on from the first one quietly. -/
inductive Quietly (h : History) : History → Prop where
  | refl : Quietly h h
  | more {h' : History} {e : Event} (before : Quietly h h') (quiet : h'.Quiet e) :
      Quietly h (e :: h')

variable {h h' : History} {owed : List (Pid × Pid)} {w t p : Pid} {e : Event} {msg : Value}

theorem Quietly.single (quiet : h.Quiet e) : Quietly h (e :: h) := .more .refl quiet

theorem Quietly.trans {h'' : History} (first : Quietly h h') (second : Quietly h' h'') :
    Quietly h h'' := by
  induction second with
  | refl => exact first
  | more _ quiet ih => exact .more ih quiet

/-! ### What each event adds -/

theorem hasEnded_cons (e : Event) (h : History) (p : Pid) :
    hasEnded p (e :: h) = (e.isEndOf p || h.hasEnded p) := rfl

theorem lateWatches_of_not_ended (going : h.hasEnded t = false) : h.lateWatches w t = 0 := by
  induction h with
  | nil => rfl
  | cons e earlier ih =>
    rw [hasEnded_cons, Bool.or_eq_false_iff] at going
    cases e with
    | watched watcher target =>
      rw [lateWatches, if_neg (by simp [going.2])]
      exact ih going.2
    | _ => exact ih going.2

/-- What a quiet event leaves alone. -/
structure Same (h h' : History) : Prop where
  hasEnded : ∀ p, h'.hasEnded p = h.hasEnded p
  notices : ∀ w t, h'.notices w t = h.notices w t
  posthumous : ∀ w t, h'.posthumous w t = h.posthumous w t
  watchedInTime : ∀ w t, h'.watchedInTime w t = h.watchedInTime w t
  lateWatches : ∀ w t, h'.lateWatches w t = h.lateWatches w t

theorem Quiet.same (quiet : h.Quiet e) : Same h (e :: h) := by
  cases quiet with
  | sent going receiver msg =>
    refine ⟨fun _ => rfl, fun _ _ => rfl, fun w t => if_neg ?_, fun _ _ => rfl, fun _ _ => rfl⟩
    rintro ⟨-, rfl, ended⟩
    simp [going] at ended
  | _ => exact ⟨fun _ => rfl, fun _ _ => rfl, fun _ _ => rfl, fun _ _ => rfl, fun _ _ => rfl⟩

theorem Quietly.same (quietly : Quietly h h') : Same h h' := by
  induction quietly with
  | refl => exact ⟨fun _ => rfl, fun _ _ => rfl, fun _ _ => rfl, fun _ _ => rfl, fun _ _ => rfl⟩
  | more _ quiet ih =>
    have last := quiet.same
    exact ⟨fun p => (last.hasEnded p).trans (ih.hasEnded p),
      fun w t => (last.notices w t).trans (ih.notices w t),
      fun w t => (last.posthumous w t).trans (ih.posthumous w t),
      fun w t => (last.watchedInTime w t).trans (ih.watchedInTime w t),
      fun w t => (last.lateWatches w t).trans (ih.lateWatches w t)⟩

/-- No notice comes before the end that it tells of. -/
def Timely (h : History) : Prop :=
  ∀ w t msg (earlier : History), .notified t w msg :: earlier <:+ h → earlier.hasEnded t

theorem Timely.cons (timely : Timely h) (ended : ∀ w t msg, .notified t w msg = e → h.hasEnded t) :
    Timely (e :: h) := by
  intro w t msg earlier suffix
  rcases List.suffix_cons_iff.mp suffix with same | before
  · obtain ⟨told, rfl⟩ := List.cons.inj same
    exact ended w t msg told
  · exact timely w t msg earlier before

theorem Timely.quietly (timely : Timely h) (quietly : Quietly h h') : Timely h' := by
  induction quietly with
  | refl => exact timely
  | more _ quiet ih =>
    refine ih.cons ?_
    rintro w t msg rfl
    cases quiet

/-! ### Accounts -/

/-- Every notice that became due was given or is owed, and none before its time. -/
structure Settles (h : History) (owed : List (Pid × Pid)) : Prop where
  counted : ∀ w t, (h.notices w t).length + owed.count (w, t) =
    (if h.hasEnded t ∧ h.watchedInTime w t then 1 else 0) + h.lateWatches w t
  posted : ∀ w t, h.notices w t = h.posthumous w t
  timely : h.Timely

theorem settles_nil : Settles [] [] :=
  ⟨fun _ _ => rfl, fun _ _ => rfl, fun _ _ _ _ suffix => by simp at suffix⟩

theorem Settles.notices_of_not_ended (settles : Settles h []) (going : h.hasEnded t = false) :
    h.notices w t = [] := by
  have counted := settles.counted w t
  rw [lateWatches_of_not_ended going, if_neg (by simp [going])] at counted
  exact List.length_eq_zero_iff.mp counted

theorem Settles.quietly (settles : Settles h owed) (quietly : Quietly h h') :
    Settles h' owed := by
  have same := quietly.same
  refine ⟨fun w t => ?_, fun w t => ?_, settles.timely.quietly quietly⟩
  · rw [same.notices, same.hasEnded, same.watchedInTime, same.lateWatches]
    exact settles.counted w t
  · rw [same.notices, same.posthumous]
    exact settles.posted w t

theorem Settles.watched_live (settles : Settles h owed) (going : h.hasEnded t = false) (w : Pid) :
    Settles (.watched w t :: h) owed := by
  refine ⟨fun w' t' => ?_, settles.posted, settles.timely.cons nofun⟩
  refine (settles.counted w' t').trans ?_
  rw [hasEnded_cons, watchedInTime, lateWatches]
  by_cases same : w = w' ∧ t = t'
  · obtain ⟨rfl, rfl⟩ := same
    simp [going, Event.isEndOf]
  · have apart : ∀ ended, ¬ (w = w' ∧ t = t' ∧ ended) := fun ended both => same ⟨both.1, both.2.1⟩
    simp [apart, Event.isEndOf]

theorem Settles.watched_late (settles : Settles h owed) (ended : h.hasEnded t) (w : Pid) :
    Settles (.watched w t :: h) ((w, t) :: owed) := by
  refine ⟨fun w' t' => ?_, settles.posted, settles.timely.cons nofun⟩
  have before := settles.counted w' t'
  simp only [notices, List.count_cons, hasEnded_cons, watchedInTime, lateWatches]
  by_cases same : w = w' ∧ t = t'
  · obtain ⟨rfl, rfl⟩ := same
    simp [ended, Event.isEndOf] at before ⊢
    omega
  · have apart : ∀ ended, ¬ (w = w' ∧ t = t' ∧ ended) := fun ended both => same ⟨both.1, both.2.1⟩
    simp [apart, same, before, Event.isEndOf]

/-- A notice that was due is sent, maybe taken at once, and entered. -/
theorem Settles.notified (settles : Settles h ((w, t) :: owed)) (ended : h.hasEnded t)
    (quietly : Quietly (.sent t w msg :: h) h') : Settles (.notified t w msg :: h') owed := by
  have same := quietly.same
  have timely : Timely (.sent t w msg :: h) := settles.timely.cons nofun
  refine ⟨fun w' t' => ?_, fun w' t' => ?_, (timely.quietly quietly).cons ?_⟩
  · have before := settles.counted w' t'
    rw [List.count_cons] at before
    simp only [notices, hasEnded_cons, watchedInTime, lateWatches, same.notices, same.hasEnded,
      same.watchedInTime, same.lateWatches]
    by_cases here : w = w' ∧ t = t'
    · obtain ⟨rfl, rfl⟩ := here
      simp [Event.isEndOf] at before ⊢
      omega
    · simpa [here, Event.isEndOf] using before
  · simp only [notices, posthumous, same.notices, same.posthumous, settles.posted]
    by_cases here : w = w' ∧ t = t'
    · obtain ⟨rfl, rfl⟩ := here
      simp [ended]
    · rw [if_neg here, if_neg fun both => here ⟨both.1, both.2.1⟩]
  · rintro w' t' msg' told
    obtain ⟨rfl, rfl, rfl⟩ := Event.notified.inj told
    rw [same.hasEnded]
    exact ended

/-- An end makes a notice due for everyone who watches. -/
theorem Settles.finalized {watchers : List Pid} (settles : Settles h []) (going : h.hasEnded t = false)
    (once : watchers.Nodup) (listed : ∀ w, w ∈ watchers ↔ h.watchedInTime w t)
    (unread : List Value) :
    Settles (.finalized t unread :: h) (watchers.map (·, t)) := by
  refine ⟨fun w t' => ?_, settles.posted, settles.timely.cons nofun⟩
  have before := settles.counted w t'
  simp only [notices, hasEnded_cons, watchedInTime, lateWatches]
  by_cases same : t = t'
  · subst same
    have counts : (watchers.map (·, t)).count (w, t) = watchers.count w :=
      List.count_map_of_injective _ (·, t) (fun a b same => (Prod.mk.inj same).1) w
    -- until now there was nothing to tell, and no watch came too late
    rw [counts, settles.notices_of_not_ended going, lateWatches_of_not_ended going, once.count]
    simp [Event.isEndOf, listed w]
  · have none : (watchers.map (·, t)).count (w, t') = 0 := by
      rw [List.count_eq_zero]
      simp [same]
    simpa [Event.isEndOf, same, none] using before

end ProcLisp.History
