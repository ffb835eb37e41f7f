import ProcLisp.Proofs.Scheduler.Changes

/-!
# Runs of the scheduler

A run is a sequence of requests from outside and of slices. `Steady` says what a property has to
survive to hold in all of them: the elementary changes, the start of a slice, and the three ways in
which a slice ends.
-/

namespace ProcLisp.Scheduler

/-! ### Requests -/

inductive Request where
  | spawn (exprs : List Value) (env : Env)
  /-- Spawns a process and runs slices until it is gone, at most `most`. -/
  | exec (exprs : List Value) (env : Env) (most : Nat)
  /-- The slice of the process at the head of the ready queue. -/
  | slice
  | send (receiver : Pid) (msg : Value)
  | info (p : Pid)
  | start
  | stop

/-- A request that is refused changes nothing. -/
def serve (s : Scheduler) : Request → Scheduler
  | .spawn exprs env => match s.spawn exprs env with
    | .ok (_, s) => s
    | .error _ => s
  | .exec exprs env most => match s.spawn exprs env with
    | .ok (p, s) => (s.await p most).2
    | .error _ => s
  | .slice => match s.step? with
    | some (_, s) => s
    | none => s
  | .send receiver msg => match s.sendOutside receiver msg with
    | .ok s => s
    | .error _ => s
  | .info p => match s.info p with
    | .ok (_, s) => s
    | .error _ => s
  | .start => match s.start with
    | .ok s => s
    | .error _ => s
  | .stop => s.stop

def serveAll (s : Scheduler) (requests : List Request) : Scheduler := requests.foldl serve s

/-! ### Slices -/

/-- Where a slice is. -/
inductive Phase where
  | between
  | running (p : Pid)
  /-- The process is out of the table, and its watchers are told. -/
  | ending (p : Pid)
  deriving DecidableEq

/-- The scheduler while it runs a process that it took from the head of the ready queue. -/
def begin (s : Scheduler) (p : Pid) (rest : Queue Pid) : Scheduler :=
  { s with ready := rest }.update p fun q => { q with state := .running }

/-- A property of the scheduler, phase by phase, that everything in a run keeps. -/
structure Steady (P : Phase → Scheduler → Prop) : Prop where
  change : ∀ {phase s s'}, P phase s → Change s s' → P phase s'
  flags : ∀ {s} (started stopped : Bool), P .between s → P .between { s with started, stopped }
  queued : ∀ {s p rest}, P .between s → s.ready.pop? = some (p, rest) → p ∈ s.procs
  present : ∀ {s p}, P (.running p) s → p ∈ s.procs
  begin : ∀ {s p rest}, P .between s → s.ready.pop? = some (p, rest) →
    P (.running p) (s.begin p rest)
  yielded : ∀ {s p m}, P (.running p) s → m.halted? = none →
    P .between ((s.update p fun q => { q with machine := m, state := .ready }).enqueue p)
  parked : ∀ {s p q m}, P (.running p) s → m.control = .waiting → s.procs[p]? = some q →
    q.mailbox.toList = [] →
    P .between (s.update p fun q => { q with machine := m, state := .blocked })
  buried : ∀ {s p q} (exit : Exit), P (.running p) s → s.procs[p]? = some q →
    P (.ending p) (s.bury p q exit)
  released : ∀ {s p}, P (.ending p) s → P .between (s.release p)

/-- The states that a run from `first` goes through: between slices, and between two dispatches of
the slice that comes next. -/
inductive Moment (first : Scheduler) : Scheduler → Prop where
  | between (requests : List Request) : Moment first (first.serveAll requests)
  | within (requests : List Request) {p : Pid} {rest : Queue Pid} {q : Process} {n : Nat}
      {c : Machine × Scheduler} (going : (first.serveAll requests).stopped = false)
      (popped : (first.serveAll requests).ready.pop? = some (p, rest))
      (there : (first.serveAll requests).procs[p]? = some q)
      (reached : Machine.iterate (first.serveAll requests).machine (world p) n
        (q.machine, (first.serveAll requests).begin p rest) = some c) : Moment first c.2

theorem machine_yielded {σ : Type} {cfg : Machine.Config} {world : World σ} {m : Machine}
    {budget : Nat} {s : σ} (status : (m.run cfg world budget s).status = .yielded) :
    (m.run cfg world budget s).machine.halted? = none := by
  obtain ⟨n, c, -, ⟨same, going, -⟩ | ⟨same, -⟩⟩ := Machine.run_cases cfg world budget m s
  · rw [same]
    exact going
  · rw [same] at status
    exact absurd status (Machine.stop_status c)

theorem machine_blocked {σ : Type} {cfg : Machine.Config} {world : World σ} {m : Machine}
    {budget : Nat} {s : σ} (status : (m.run cfg world budget s).status = .blocked) :
    (m.run cfg world budget s).machine.control = .waiting := by
  obtain ⟨n, c, -, ⟨same, -, -⟩ | ⟨same, -⟩⟩ := Machine.run_cases cfg world budget m s
  · simp [same] at status
  · rw [same] at status ⊢
    unfold Machine.stop Machine.halted? at status ⊢
    cases control : c.1.control <;> simp_all

theorem changes_recordExit (s : Scheduler) (p : Pid) (reason : Value) :
    Changes s (s.recordExit p reason) := by
  unfold recordExit
  split
  · exact .single (.aside s.logs s.printed _ _ s.limiter)
  · exact changes_log s _ _ _

theorem changes_logExit (s : Scheduler) (p : Pid) (q : Process) (exit : Exit) :
    Changes s (s.logExit p q exit) := by
  simp only [logExit]
  split <;> exact changes_log s _ _ _

theorem changes_notifyAll (target : Pid) (reason : Value) (watchers : List Pid) (s : Scheduler) :
    Changes s (watchers.foldl (fun s w => s.notify target reason w) s) := by
  induction watchers generalizing s with
  | nil => exact .refl
  | cons watcher others ih => exact (changes_notify s target reason watcher).trans (ih _)

theorem procs_recordExit (s : Scheduler) (p : Pid) (reason : Value) :
    (s.recordExit p reason).procs = s.procs := by
  unfold recordExit
  split <;> rfl

theorem halted?_load (exprs : List Value) (env : Env) :
    (({} : Machine).load exprs env).halted? = none := by
  unfold Machine.load
  split <;> rfl

theorem hand_waiting {m : Machine} (waits : m.control = .waiting) (s : Scheduler) (p : Pid)
    (msg : Value) :
    s.hand p m msg = ((s.update p fun q =>
      { q with machine := { m with control := .returning, val := msg }, state := .ready }).mark
        (.received p msg)).enqueue p := by
  simp [hand, Machine.resume, waits]

namespace Steady

variable {P : Phase → Scheduler → Prop} {phase : Phase} {s s' : Scheduler} {p : Pid}

theorem changes (steady : Steady P) (holds : P phase s) (changed : Changes s s') :
    P phase s' := by
  induction changed with
  | refl => exact holds
  | tail _ last ih => exact steady.change ih last

/-- A process that finds mail when it is to be parked takes it and goes on. -/
theorem park (steady : Steady P) {m : Machine} (holds : P (.running p) s)
    (waits : m.control = .waiting) : P .between (s.park p m) := by
  unfold Scheduler.park
  split
  · rename_i msg s₁ popped
    obtain ⟨q, rest, there, first, rfl⟩ := popMail_some popped
    rw [hand_waiting waits]
    have taken := steady.change holds (.taken there first)
    exact steady.yielded taken rfl
  · rename_i popped
    obtain ⟨q, there⟩ := mem_procs.mp (steady.present holds)
    exact steady.parked holds waits there (popMail_none popped there)

theorem retired (steady : Steady P) {q : Process} (exit : Exit) (holds : P (.running p) s)
    (there : s.procs[p]? = some q) : P .between (s.retire p q exit) := by
  have recorded := steady.changes holds (changes_recordExit s p exit.reason)
  have buried := steady.buried exit recorded (by rw [procs_recordExit]; exact there)
  have logged := steady.changes buried (changes_logExit _ p q exit)
  exact steady.released (steady.changes logged (changes_notifyAll p exit.reason q.watchers _))

theorem slice (steady : Steady P) (holds : P .between s) (stepped : s.step? = some (p, s')) :
    P .between s' := by
  unfold step? at stepped
  split at stepped
  · simp at stepped
  split at stepped
  · simp at stepped
  rename_i first rest popped
  obtain ⟨rfl, rfl⟩ := Prod.mk.inj (Option.some.inj stepped)
  obtain ⟨q, there⟩ := mem_procs.mp (steady.queued holds popped)
  simp only [runSlice, process?, there]
  have begun := steady.begin holds popped
  generalize ran : q.machine.run _ _ _ _ = r
  have changed := changes_run s.machine q.machine first s.slice (s.begin first rest)
  have ticked : P (.running first) r.state.tick := by
    rw [← ran]
    exact steady.changes begun (changed.tail (.aside _ _ _ _ _))
  split
  · rename_i status
    exact steady.yielded ticked (by rw [← ran] at status ⊢; exact machine_yielded status)
  · rename_i status
    exact steady.park ticked (by rw [← ran] at status ⊢; exact machine_blocked status)
  · obtain ⟨q', there'⟩ := mem_procs.mp (steady.present ticked)
    simp only [there']
    exact steady.retired _ ticked there'

theorem runUntil (steady : Steady P) (halt : Scheduler → Bool) (most done : Nat)
    (holds : P .between s) : P .between (runUntil halt most done s).2 := by
  induction most generalizing done s with
  | zero => exact holds
  | succ most ih =>
    unfold Scheduler.runUntil
    split
    · exact holds
    split
    · exact holds
    · rename_i stepped
      exact ih (done + 1) (steady.slice holds stepped)

theorem spawned (steady : Steady P) {exprs : List Value} {env : Env} (holds : P .between s)
    (made : s.spawn exprs env = .ok (p, s')) : P .between s' :=
  steady.change holds (.born (halted?_load exprs env) made)

theorem stopped (steady : Steady P) (holds : P .between s) : P .between s.stop := by
  unfold Scheduler.stop
  split
  · exact holds
  have flagged : P .between { s with stopped := true } := steady.flags s.started true holds
  simp only
  split
  · exact steady.change flagged (.aside _ s.printed s.clock _ s.limiter)
  · exact steady.change flagged (.aside _ s.printed s.clock s.journal s.limiter)

theorem started (steady : Steady P) (holds : P .between s) (done : s.start = .ok s') :
    P .between s' := by
  unfold Scheduler.start at done
  split at done
  · simp at done
  obtain rfl := Except.ok.inj done
  have flagged : P .between { s with started := true } := steady.flags true s.stopped holds
  exact steady.changes flagged (changes_log _ _ _ _)

theorem informed (steady : Steady P) {info : ProcessInfo} (holds : P .between s)
    (told : s.info p = .ok (info, s')) : P .between s' := by
  unfold Scheduler.info at told
  split at told
  · obtain ⟨-, rfl⟩ := Prod.mk.inj (Except.ok.inj told)
    exact holds
  split at told
  · obtain ⟨-, rfl⟩ := Prod.mk.inj (Except.ok.inj told)
    exact steady.changes holds (changes_recordedReason s p)
  · simp at told

theorem serve (steady : Steady P) (request : Request) (holds : P .between s) :
    P .between (s.serve request) := by
  cases request with
  | spawn exprs env =>
    simp only [Scheduler.serve]
    split
    · rename_i made
      exact steady.spawned holds made
    · exact holds
  | exec exprs env most =>
    simp only [Scheduler.serve]
    split
    · rename_i made
      exact steady.runUntil _ most 0 (steady.spawned holds made)
    · exact holds
  | slice =>
    simp only [Scheduler.serve]
    split
    · rename_i stepped
      exact steady.slice holds stepped
    · exact holds
  | send receiver msg =>
    simp only [Scheduler.serve]
    split
    · rename_i sent
      exact steady.changes holds (changes_send sent)
    · exact holds
  | info p =>
    simp only [Scheduler.serve]
    split
    · rename_i told
      exact steady.informed holds told
    · exact holds
  | start =>
    simp only [Scheduler.serve]
    split
    · rename_i done
      exact steady.started holds done
    · exact holds
  | stop => exact steady.stopped holds

theorem serveAll (steady : Steady P) (requests : List Request) (holds : P .between s) :
    P .between (s.serveAll requests) := by
  induction requests generalizing s with
  | nil => exact holds
  | cons request later ih => exact ih (steady.serve request holds)

/-- What a run keeps also holds between two dispatches of a slice. -/
theorem moment (steady : Steady P) {first : Scheduler} (holds : P .between first)
    (moment : Moment first s) : ∃ phase, P phase s := by
  cases moment with
  | between requests => exact ⟨.between, steady.serveAll requests holds⟩
  | within requests going popped there reached =>
    have begun := steady.begin (steady.serveAll requests holds) popped
    exact ⟨_, steady.changes begun ((keeps_changes _ _).iterate reached .refl)⟩

end Steady
end ProcLisp.Scheduler
