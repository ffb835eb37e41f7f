import ProcLisp.Proofs.Scheduler.Sound

/-!
# What lasts from slice to slice

A slice runs the machine of its process and then puts the process back, parks it or retires it. With
that said once, a property of the scheduler between slices lasts for a whole run if slices and the
requests from outside keep it. An execution is a spawn followed by slices.
-/

namespace ProcLisp.Scheduler

variable {s s' : Scheduler} {p : Pid}

/-- How the slice of a process ends, from where the run of its machine leaves it. -/
inductive SliceEnd (p : Pid) (r : Progress Scheduler) : Scheduler → Prop where
  | yielded (status : r.status = .yielded) :
      SliceEnd p r ((r.state.tick.update p fun q =>
        { q with machine := r.machine, state := .ready }).enqueue p)
  | parked (status : r.status = .blocked) : SliceEnd p r (r.state.tick.park p r.machine)
  | retired {q : Process} (status : r.status = .done ∨ r.status = .terminated)
      (there : r.state.procs[p]? = some q) :
      SliceEnd p r (r.state.tick.retire p q (Exit.ofMachine r.machine))

/-- The run of a machine in a slice of its process. -/
def runFrom (s : Scheduler) (p : Pid) (rest : Queue Pid) (q : Process) : Progress Scheduler :=
  q.machine.run s.machine (world p) s.slice (s.begin p rest)

theorem Sound.run (sound : Sound .between s) {rest : Queue Pid} (q : Process)
    (popped : s.ready.pop? = some (p, rest)) : Sound (.running p) (s.runFrom p rest q).state :=
  steady_sound.changes (sound.begin popped) (changes_run s.machine q.machine p s.slice _)

theorem Sound.run_ticked (sound : Sound .between s) {rest : Queue Pid} (q : Process)
    (popped : s.ready.pop? = some (p, rest)) :
    Sound (.running p) (s.runFrom p rest q).state.tick :=
  (sound.run q popped).change (.aside _ _ _ _ _)

theorem Sound.step_cases (sound : Sound .between s) (stepped : s.step? = some (p, s')) :
    ∃ rest q, s.stopped = false ∧ s.ready.pop? = some (p, rest) ∧ s.procs[p]? = some q ∧
      q.state = .ready ∧ SliceEnd p (s.runFrom p rest q) s' := by
  unfold step? at stepped
  split at stepped
  · cases stepped
  rename_i going
  split at stepped
  · cases stepped
  rename_i first rest popped
  obtain ⟨rfl, rfl⟩ := Prod.mk.inj (Option.some.inj stepped)
  have queued : first ∈ s.ready.toList := by simp [Queue.toList_of_pop popped]
  obtain ⟨q, there⟩ := mem_procs.mp (sound.2.queued queued)
  have ready : q.state = .ready := by
    rcases sound.standing there with ⟨ready, -⟩ | ⟨-, -, -, unqueued⟩
    · exact ready
    · exact absurd queued unqueued
  refine ⟨rest, q, by simpa using going, popped, there, ready, ?_⟩
  have present := steady_sound.present (sound.run q popped)
  simp only [runSlice, process?, there]
  generalize ran : q.machine.run _ _ _ _ = r
  have same : s.runFrom first rest q = r := ran
  rw [same] at present ⊢
  split
  · rename_i status
    exact .yielded status
  · rename_i status
    exact .parked status
  · rename_i notYielded notBlocked
    obtain ⟨q', there'⟩ := mem_procs.mp present
    have found : r.state.tick.procs[first]? = some q' := there'
    simp only [found]
    refine .retired ?_ there'
    cases status : r.status <;> simp_all

/-! ### Requests from outside -/

theorem start_ok (done : s.start = .ok s') :
    ∃ attrs, s' = { s with started := true }.log .debug "scheduler started" attrs := by
  unfold start at done
  split at done
  · cases done
  · exact ⟨_, (Except.ok.inj done).symm⟩

/-- Only a journal that is the scheduler's own is closed with it. -/
theorem stop_cases (s : Scheduler) : s.stop = s ∨
    ∃ journal, (journal = s.journal ∨ journal = s.journal.close) ∧
      s.stop = { s with stopped := true, journal }.log .debug "scheduler stopped" [] := by
  unfold stop
  split
  · exact .inl rfl
  · right
    simp only
    split
    · exact ⟨_, .inr rfl, rfl⟩
    · exact ⟨_, .inl rfl, rfl⟩

theorem info_ok {info : ProcessInfo} (told : s.info p = .ok (info, s')) :
    s' = s ∨ s.isRetired p ∧ s' = (s.recordedReason p).2 := by
  unfold Scheduler.info at told
  split at told
  · obtain ⟨-, rfl⟩ := Prod.mk.inj (Except.ok.inj told)
    exact .inl rfl
  split at told
  · rename_i gone
    obtain ⟨-, rfl⟩ := Prod.mk.inj (Except.ok.inj told)
    exact .inr ⟨gone, rfl⟩
  · cases told

/-- What is kept by slices and by what is asked from outside. -/
structure Lasting (P : Scheduler → Prop) : Prop where
  slice : ∀ {s s' p}, Sound .between s → P s → s.step? = some (p, s') → P s'
  spawn : ∀ {s s' p exprs env}, Sound .between s → P s → s.spawn exprs env = .ok (p, s') → P s'
  send : ∀ {s s' receiver msg}, Sound .between s → P s →
    s.sendOutside receiver msg = .ok s' → P s'
  info : ∀ {s s' p info}, Sound .between s → P s → s.info p = .ok (info, s') → P s'
  start : ∀ {s s'}, Sound .between s → P s → s.start = .ok s' → P s'
  stop : ∀ {s}, Sound .between s → P s → P s.stop

theorem serveAll_cons (s : Scheduler) (request : Request) (later : List Request) :
    s.serveAll (request :: later) = (s.serve request).serveAll later := rfl

theorem serve_slice (stepped : s.step? = some (p, s')) : s.serve .slice = s' := by
  simp [serve, stepped]

theorem serveAll_append (s : Scheduler) (first later : List Request) :
    s.serveAll (first ++ later) = (s.serveAll first).serveAll later := List.foldl_append

theorem Sound.serveAll (sound : Sound .between s) (requests : List Request) :
    Sound .between (s.serveAll requests) := steady_sound.serveAll requests sound

/-- Slices one after the other, up to a point. -/
theorem runUntil_eq (halt : Scheduler → Bool) (most done : Nat) (s : Scheduler) :
    ∃ k, (runUntil halt most done s).2 = s.serveAll (List.replicate k .slice) := by
  induction most generalizing done s with
  | zero => exact ⟨0, rfl⟩
  | succ most ih =>
    unfold runUntil
    split
    · exact ⟨0, rfl⟩
    split
    · exact ⟨0, rfl⟩
    · rename_i p s₁ stepped
      obtain ⟨k, same⟩ := ih (done + 1) s₁
      refine ⟨k + 1, ?_⟩
      rw [same, List.replicate_succ, serveAll_cons, serve_slice stepped]

/-- An execution is a spawn and so many slices. -/
theorem serve_exec (s : Scheduler) (exprs : List Value) (env : Env) (most : Nat) :
    ∃ k, s.serve (.exec exprs env most) =
      s.serveAll (.spawn exprs env :: List.replicate k .slice) := by
  cases made : s.spawn exprs env with
  | error f => exact ⟨0, by simp [Scheduler.serveAll, serve, made]⟩
  | ok spawned =>
    obtain ⟨k, same⟩ := runUntil_eq (fun s => s.doneGates[spawned.1]? == some .closed) most 0
      spawned.2
    exact ⟨k, by simpa [Scheduler.serveAll, serve, made, await] using same⟩

def Request.isExec : Request → Bool
  | .exec .. => true
  | _ => false

/-- Every run is one in which slices are asked for one by one. -/
theorem serveAll_without_exec (s : Scheduler) (requests : List Request) :
    ∃ single : List Request, (∀ r ∈ single, r.isExec = false) ∧
      s.serveAll requests = s.serveAll single := by
  induction requests generalizing s with
  | nil => exact ⟨[], by simp, rfl⟩
  | cons request later ih =>
    obtain ⟨single, plain, same⟩ := ih (s.serve request)
    by_cases exec : request.isExec
    · cases request with
      | exec exprs env most =>
        obtain ⟨k, unfolded⟩ := serve_exec s exprs env most
        refine ⟨.spawn exprs env :: List.replicate k .slice ++ single, ?_, ?_⟩
        · intro r member
          simp only [List.cons_append, List.mem_cons, List.mem_append, List.mem_replicate] at member
          rcases member with rfl | ⟨-, rfl⟩ | member
          · rfl
          · rfl
          · exact plain r member
        · rw [serveAll_append, ← unfolded, ← same]
          rfl
      | _ => simp [Request.isExec] at exec
    · refine ⟨request :: single, ?_, same⟩
      intro r member
      rcases List.mem_cons.mp member with rfl | member
      · simpa using exec
      · exact plain r member

namespace Lasting

variable {P : Scheduler → Prop}

theorem serve (lasting : Lasting P) (sound : Sound .between s) (holds : P s) {request : Request}
    (single : request.isExec = false) : P (s.serve request) := by
  cases request with
  | exec exprs env most => simp [Request.isExec] at single
  | spawn exprs env =>
    simp only [Scheduler.serve]
    split
    · exact lasting.spawn sound holds (by assumption)
    · exact holds
  | slice =>
    simp only [Scheduler.serve]
    split
    · exact lasting.slice sound holds (by assumption)
    · exact holds
  | send receiver msg =>
    simp only [Scheduler.serve]
    split
    · exact lasting.send sound holds (by assumption)
    · exact holds
  | info p =>
    simp only [Scheduler.serve]
    split
    · exact lasting.info sound holds (by assumption)
    · exact holds
  | start =>
    simp only [Scheduler.serve]
    split
    · exact lasting.start sound holds (by assumption)
    · exact holds
  | stop => exact lasting.stop sound holds

theorem serveAll (lasting : Lasting P) (sound : Sound .between s) (holds : P s)
    (requests : List Request) : P (s.serveAll requests) := by
  obtain ⟨single, plain, same⟩ := serveAll_without_exec s requests
  rw [same]
  clear same
  induction single generalizing s with
  | nil => exact holds
  | cons request later ih =>
    have first : P (s.serve request) := lasting.serve sound holds (plain request (by simp))
    have sound : Sound .between (s.serve request) := sound.serveAll [request]
    exact ih sound first fun r member => plain r (by simp [member])

end Lasting
end ProcLisp.Scheduler
