import Mathlib.Algebra.GroupWithZero.Nat
import ProcLisp.Proofs.Machine.Spending
import ProcLisp.Proofs.Scheduler.Undisturbed

/-!
# Turns

Each slice is the turn of the process at the head of the ready queue, and whatever happens in it
puts processes at the end of the queue. So a process waits for those before it, once each, and no
slice takes more than its length and one charge.
-/

namespace ProcLisp.Scheduler

variable {s s' s'' : Scheduler} {p r : Pid} {k : Nat}

/-! ### The turns of a run -/

/-- A slice that was run: whose it was, and how many reductions it took. -/
structure Turn where
  pid : Pid
  spent : Nat
  deriving DecidableEq, Repr

/-- The reductions of the slice that comes next. -/
def nextSpent (s : Scheduler) : Nat :=
  match s.ready.pop? with
  | none => 0
  | some (p, rest) => match s.procs[p]? with
    | none => 0
    | some q => q.machine.spent s.machine (world p) s.slice (s.begin p rest)

/-- The turns of `runUntil`. -/
def turnsUntil (halt : Scheduler → Bool) : (most : Nat) → Scheduler → List Turn
  | 0, _ => []
  | most + 1, s =>
    if halt s then []
    else match s.step? with
      | none => []
      | some (p, s') => ⟨p, s.nextSpent⟩ :: turnsUntil halt most s'

def turnsOf (s : Scheduler) : Request → List Turn
  | .slice => turnsUntil (fun _ => false) 1 s
  | .exec exprs env most => match s.spawn exprs env with
    | .ok (p, s) => turnsUntil (fun s => s.doneGates[p]? == some .closed) most s
    | .error _ => []
  | _ => []

/-- The turns while `requests` are served, in their order. -/
def turns (s : Scheduler) : (requests : List Request) → List Turn
  | [] => []
  | request :: later => s.turnsOf request ++ (s.serve request).turns later

/-- The scheduler within the slice that comes next, after so many of its dispatches at most. -/
def midSlice (s : Scheduler) (dispatches : Nat) : Scheduler :=
  if s.stopped then s
  else match s.ready.pop? with
    | none => s
    | some (p, rest) => match s.procs[p]? with
      | none => s
      | some q => (q.machine.runFor s.machine (world p) (min dispatches s.slice) s.slice
          (s.begin p rest)).state

theorem Sound.nextSpent_le (sound : Sound .between s) (stepped : s.step? = some (p, s')) :
    s.nextSpent ≤ s.slice + s.machine.table.maxCost := by
  obtain ⟨rest, q, -, popped, there, -, -⟩ := sound.step_cases stepped
  simp only [nextSpent, popped, there]
  exact Machine.spent_le _ _ _

/-! ### Where a turn is taken -/

/-- The turn is the slice that comes next at some point of a run from `s`. -/
def ComesTo (s : Scheduler) (t : Turn) : Prop :=
  ∃ earlier s', (s.serveAll earlier).step? = some (t.pid, s') ∧
    t.spent = (s.serveAll earlier).nextSpent

theorem turn_until {halt : Scheduler → Bool} {most : Nat} {t : Turn}
    (taken : t ∈ turnsUntil halt most s) : s.ComesTo t := by
  induction most generalizing s with
  | zero => cases taken
  | succ most ih =>
    unfold turnsUntil at taken
    split at taken
    · cases taken
    cases stepped : s.step? with
    | none =>
      rw [stepped] at taken
      cases taken
    | some next =>
      obtain ⟨p, s'⟩ := next
      rw [stepped] at taken
      rcases List.mem_cons.mp taken with rfl | later
      · exact ⟨[], s', stepped, rfl⟩
      · obtain ⟨earlier, found⟩ := ih later
        refine ⟨.slice :: earlier, ?_⟩
        rwa [serveAll_cons, serve_slice stepped]

theorem turn_of {request : Request} {t : Turn} (taken : t ∈ s.turnsOf request) :
    s.ComesTo t := by
  cases request with
  | slice => exact turn_until taken
  | exec exprs env most =>
    simp only [turnsOf] at taken
    cases made : s.spawn exprs env with
    | error f =>
      rw [made] at taken
      cases taken
    | ok spawned =>
      rw [made] at taken
      obtain ⟨earlier, found⟩ := turn_until taken
      have served : s.serve (.spawn exprs env) = spawned.2 := by simp [serve, made]
      refine ⟨.spawn exprs env :: earlier, ?_⟩
      rwa [serveAll_cons, served]
  | _ => cases taken

theorem turn_reached {requests : List Request} {t : Turn} (taken : t ∈ s.turns requests) :
    s.ComesTo t := by
  induction requests generalizing s with
  | nil => cases taken
  | cons request later ih =>
    rcases List.mem_append.mp taken with here | after
    · exact turn_of here
    · obtain ⟨earlier, found⟩ := ih after
      exact ⟨request :: earlier, found⟩

/-- The counter of the machine that runs grows by what the turn takes. -/
theorem Sound.turn_counted (sound : Sound .between s) {requests : List Request} {t : Turn}
    (taken : t ∈ s.turns requests) : ∃ earlier rest q,
      (s.serveAll earlier).ready.pop? = some (t.pid, rest) ∧
      (s.serveAll earlier).procs[t.pid]? = some q ∧
      ((s.serveAll earlier).runFrom t.pid rest q).machine.reductions =
        q.machine.reductions + t.spent.toUInt64 := by
  obtain ⟨earlier, s', stepped, spent⟩ := turn_reached taken
  obtain ⟨rest, q, -, popped, there, -, -⟩ := (sound.serveAll earlier).step_cases stepped
  refine ⟨earlier, rest, q, popped, there, ?_⟩
  rw [spent, nextSpent, popped]
  dsimp only
  rw [there]
  exact Machine.reductions_run _ q.machine _

/-! ### What keeps the queue in order -/

/-- The queue grows at its end, under the same machine settings. -/
structure Extends (s s' : Scheduler) : Prop where
  machine : s'.machine = s.machine
  slice : s'.slice = s.slice
  ready : ∃ extra, s'.ready.toList = s.ready.toList ++ extra

theorem Undisturbed.extends (kept : Undisturbed p s s') : Extends s s' :=
  ⟨kept.settings.machine, kept.settings.slice, kept.ready⟩

theorem Extends.waiting (kept : Extends s s') (waits : s.ready.toList[k]? = some p) :
    s'.ready.toList[k]? = some p := by
  obtain ⟨extra, grown⟩ := kept.ready
  have bound : k < s.ready.toList.length := (List.getElem?_eq_some_iff.mp waits).1
  rw [grown, List.getElem?_append_left bound, waits]

/-- A run as slices, and what is done between them. -/
inductive Course : Scheduler → List Turn → Scheduler → Prop where
  | done (s : Scheduler) : Course s [] s
  | slice {s s' s'' : Scheduler} {p : Pid} {ts : List Turn} (stepped : s.step? = some (p, s'))
      (later : Course s' ts s'') : Course s (⟨p, s.nextSpent⟩ :: ts) s''
  | aside {s s' s'' : Scheduler} {ts : List Turn} (sound : Sound .between s')
      (kept : Extends s s') (later : Course s' ts s'') : Course s ts s''

theorem Course.append {ts ts' : List Turn} (first : Course s ts s') (second : Course s' ts' s'') :
    Course s (ts ++ ts') s'' := by
  induction first with
  | done => exact second
  | slice stepped _ ih => exact .slice stepped (ih second)
  | aside sound kept _ ih => exact .aside sound kept (ih second)

theorem course_runUntil (halt : Scheduler → Bool) (most done : Nat) (s : Scheduler) :
    Course s (turnsUntil halt most s) (runUntil halt most done s).2 := by
  induction most generalizing done s with
  | zero => exact .done s
  | succ most ih =>
    unfold turnsUntil runUntil
    split
    · exact .done s
    cases stepped : s.step? with
    | none => exact .done s
    | some next => exact .slice stepped (ih (done + 1) next.2)

theorem course_slice (s : Scheduler) : Course s (s.turnsOf .slice) (s.serve .slice) := by
  cases stepped : s.step? with
  | none => simpa [turnsOf, turnsUntil, serve, stepped] using Course.done s
  | some next =>
    simpa [turnsOf, turnsUntil, serve, stepped] using Course.slice stepped (.done next.2)

/-- A request that starts no slice leaves the order of the queue as it is. -/
theorem Sound.extends_serve (sound : Sound .between s) {request : Request}
    (single : request.isExec = false) (other : request ≠ .slice) :
    Extends s (s.serve request) := by
  have same : Extends s s := (Undisturbed.refl Pid.nil s).extends
  cases request with
  | exec exprs env most => simp [Request.isExec] at single
  | slice => exact absurd rfl other
  | spawn exprs env =>
    simp only [serve]
    split
    · rename_i made
      exact (Undisturbed.born (p := Pid.nil) sound.1 made).extends
    · exact same
  | send receiver msg =>
    simp only [serve]
    split
    · rename_i sent
      exact (Undisturbed.changes (p := receiver) sound (changes_send sent)).extends
    · exact same
  | info p =>
    simp only [serve]
    split
    · rename_i told
      exact (Undisturbed.informed (p := p) sound told).extends
    · exact same
  | start =>
    simp only [serve]
    split
    · rename_i done
      obtain ⟨attrs, rfl⟩ := start_ok done
      exact ⟨rfl, rfl, [], by simp [log, note]⟩
    · exact same
  | stop =>
    rcases stop_cases s with unchanged | ⟨journal, -, unchanged⟩
    · simp only [serve, unchanged]
      exact same
    · simp only [serve, unchanged]
      exact ⟨rfl, rfl, [], by simp [log, note]⟩

theorem Sound.course_serve (sound : Sound .between s) (request : Request) :
    Course s (s.turnsOf request) (s.serve request) := by
  by_cases exec : request.isExec
  · cases request with
    | exec exprs env most =>
      cases made : s.spawn exprs env with
      | error f =>
        simp only [turnsOf, serve, made]
        exact .done s
      | ok spawned =>
        obtain ⟨p, s₁⟩ := spawned
        simp only [turnsOf, serve, made]
        exact .aside (steady_sound.spawned sound made)
          (Undisturbed.born (p := p) sound.1 made).extends (course_runUntil _ most 0 s₁)
    | _ => simp [Request.isExec] at exec
  · by_cases slice : request = .slice
    · rw [slice]
      exact course_slice s
    · have kept := sound.extends_serve (by simpa using exec) slice
      have none : s.turnsOf request = [] := by
        cases request <;> simp_all [turnsOf, Request.isExec]
      rw [none]
      exact .aside (sound.serveAll [request]) kept (.done _)

theorem Sound.course_serveAll (sound : Sound .between s) (requests : List Request) :
    Course s (s.turns requests) (s.serveAll requests) := by
  induction requests generalizing s with
  | nil => exact .done s
  | cons request later ih =>
    exact (sound.course_serve request).append (ih (sound.serveAll [request]))

/-! ### Waiting for a turn -/

/-- What a process at position `k` of the queue sees of the turns up to `s'`. -/
structure InTurn (p : Pid) (k bound : Nat) (ts : List Turn) (s' : Scheduler) : Prop where
  others : ∀ t ∈ ts.take k, t.pid ≠ p
  own : ∀ t, ts[k]? = some t → t.pid = p
  spent : ((ts.take k).map Turn.spent).sum ≤ k * bound
  waits : ts.length ≤ k → s'.ready.toList[k - ts.length]? = some p

/-- A process is queued once, so that it is at no two positions. -/
theorem Sound.head_ne (sound : Sound .between s) {rest : Queue Pid}
    (popped : s.ready.pop? = some (r, rest)) (waits : rest.toList[k]? = some p) : r ≠ p := by
  rintro rfl
  have queued : r ∈ s.ready.toList := by simp [Queue.toList_of_pop popped]
  obtain ⟨q, there⟩ := mem_procs.mp (sound.2.queued queued)
  have again : 0 < rest.toList.count r := List.count_pos_iff.mpr (List.mem_of_getElem? waits)
  have counted : s.ready.toList.count r = rest.toList.count r + 1 := by
    rw [Queue.toList_of_pop popped, List.count_cons_self]
  rcases sound.standing there with ⟨-, once, -⟩ | ⟨-, -, -, unqueued⟩
  · omega
  · exact unqueued queued

theorem Course.inTurn {ts : List Turn} (course : Course s ts s') (sound : Sound .between s)
    (waits : s.ready.toList[k]? = some p) :
    InTurn p k (s.slice + s.machine.table.maxCost) ts s' := by
  induction course generalizing k with
  | done s => exact ⟨by simp, by simp, by simp, fun _ => waits⟩
  | aside later kept _ ih =>
    rw [← kept.slice, ← kept.machine]
    exact ih later (kept.waiting waits)
  | @slice s s' s'' r ts stepped _ ih =>
    obtain ⟨rest, -, -, popped, -, -, -⟩ := sound.step_cases stepped
    rw [Queue.toList_of_pop popped] at waits
    cases k with
    | zero =>
      obtain rfl : r = p := by simpa using waits
      exact ⟨by simp, by simp, by simp, by simp⟩
    | succ k =>
      -- the slice of another process brings `p` to position `k`
      rw [List.getElem?_cons_succ] at waits
      have other : r ≠ p := sound.head_ne popped waits
      obtain ⟨rest', popped', kept⟩ := sound.other_slice stepped other
      obtain ⟨-, rfl⟩ := Prod.mk.inj (Option.some.inj (popped.symm.trans popped'))
      have settings := sound.slice_settings stepped
      have nearer := ih (steady_sound.slice sound stepped) (kept.extends.waiting waits)
      rw [settings.slice, settings.machine] at nearer
      have first := sound.nextSpent_le stepped
      refine ⟨?_, fun t at_k => nearer.own t (by simpa using at_k), ?_, fun past => ?_⟩
      · intro t member
        rw [List.take_succ_cons, List.mem_cons] at member
        rcases member with rfl | member
        · exact other
        · exact nearer.others t member
      · rw [List.take_succ_cons, List.map_cons, List.sum_cons, Nat.succ_mul]
        have := nearer.spent
        show s.nextSpent + _ ≤ _
        omega
      · have last := nearer.waits (by simpa using past)
        rwa [List.length_cons, Nat.add_sub_add_right]

theorem step?_of_waiting (going : s.stopped = false) (waits : s.ready.toList[k]? = some p) :
    s.step?.isSome := by
  cases list : s.ready.toList with
  | nil => simp [list] at waits
  | cons first others =>
    obtain ⟨rest, popped⟩ := pop?_of_toList list
    obtain ⟨s', stepped⟩ := step?_of_pop going popped
    simp [stepped]

/-! ### Within a slice -/

theorem changes_rest (cfg : Machine.Config) (p : Pid) (fuel more budget : Nat) (m : Machine)
    (s : Scheduler) :
    Changes (m.runFor cfg (world p) fuel budget s).state
      (m.runFor cfg (world p) (fuel + more) budget s).state := by
  induction fuel generalizing budget m s with
  | zero =>
    have paused : (m.runFor cfg (world p) 0 budget s).state = s := Machine.pause_state m s
    rw [paused, Nat.zero_add]
    exact (keeps_changes s p).runFor more budget .refl
  | succ fuel ih =>
    rw [Nat.succ_add]
    unfold Machine.runFor
    split
    · exact .refl
    cases next : m.next? cfg (world p) s with
    | none => exact .refl
    | some d => exact ih (budget - 1 - d.charge) (m.after d) d.state

/-- Where a process is queued within a slice, there it is when the slice is over. -/
theorem Sound.waiting_of_midSlice (sound : Sound .between s) {dispatches : Nat}
    (waits : (s.midSlice dispatches).ready.toList[k]? = some p) :
    (s.serve .slice).ready.toList[k]? = some p := by
  cases stepped : s.step? with
  | none =>
    have idle : s.stopped = true ∨ s.ready.pop? = none := by
      unfold step? at stepped
      split at stepped
      · exact .inl (by assumption)
      split at stepped
      · exact .inr (by assumption)
      · cases stepped
    have unmoved : s.midSlice dispatches = s := by
      rcases idle with stopped | empty
      · simp [midSlice, stopped]
      · simp [midSlice, empty]
    rw [unmoved] at waits
    simpa [serve, stepped] using waits
  | some next =>
    obtain ⟨r, s'⟩ := next
    obtain ⟨rest, q, going, popped, there, -, ended⟩ := sound.step_cases stepped
    rw [serve_slice stepped]
    have begun := sound.begin popped
    let mid := s.midSlice dispatches
    have reached : mid = (q.machine.runFor s.machine (world r) (min dispatches s.slice) s.slice
        (s.begin r rest)).state := by
      simp [mid, midSlice, going, popped, there]
    have before : Changes (s.begin r rest) mid := by
      rw [reached]
      exact (keeps_changes _ r).runFor _ _ .refl
    have after : Changes mid (s.runFrom r rest q).state := by
      have enough : s.slice = min dispatches s.slice + (s.slice - min dispatches s.slice) := by omega
      have rest_of := changes_rest s.machine r (min dispatches s.slice)
        (s.slice - min dispatches s.slice) s.slice q.machine (s.begin r rest)
      rw [← enough] at rest_of
      rw [reached]
      exact rest_of
    have soundMid : Sound (.running r) mid := steady_sound.changes begun before
    -- the process that runs is not in the queue
    have other : r ≠ p := by
      rintro rfl
      obtain ⟨q', there'⟩ := mem_procs.mp (soundMid.1.active r rfl)
      have unqueued := (soundMid.2.stands there').of_running.2
      exact List.count_eq_zero.mp unqueued (List.mem_of_getElem? waits)
    have kept : Undisturbed p mid s' := (Undisturbed.changes soundMid after).trans
      (ended.undisturbed (sound.run_ticked q popped) other)
    exact kept.extends.waiting waits

/-! ### The bound -/

/-- A process at position `k` of the ready queue runs after exactly `k` more slices, whatever is
asked for in the meantime, and these slices together take at most `k` times the length of a slice
and the largest charge. Before that its position is `k` less the slices that were run, and there is
a slice to run unless the scheduler is stopped. A position within a slice is the one after it. What
a turn takes is what the counter of the machine grows by. -/
theorem bounded_waiting (table : SyscallTable) (slice maxFrames : Int) (journal : Journal)
    (ownsJournal : Bool) (workers clock : Nat) (pids : Pid.Source) (before later : List Request)
    (p : Pid) (k : Nat) :
    let s := (create table slice maxFrames journal ownsJournal workers clock pids).serveAll before
    let turns := s.turns later
    let s' := s.serveAll later
    (s.ready.toList[k]? = some p →
      (∀ t ∈ turns.take k, t.pid ≠ p) ∧
      (∀ t, turns[k]? = some t → t.pid = p) ∧
      ((turns.take k).map Turn.spent).sum ≤ k * (s.slice + s.machine.table.maxCost) ∧
      (turns.length ≤ k → s'.ready.toList[k - turns.length]? = some p ∧
        (s'.stopped = false → s'.step?.isSome))) ∧
    (∀ dispatches, (s.midSlice dispatches).ready.toList[k]? = some p →
      (s.serve .slice).ready.toList[k]? = some p) ∧
    ∀ t ∈ turns, ∃ earlier rest q,
      let begun := s.serveAll earlier
      begun.ready.pop? = some (t.pid, rest) ∧ begun.procs[t.pid]? = some q ∧
        (begun.runFrom t.pid rest q).machine.reductions =
          q.machine.reductions + t.spent.toUInt64 := by
  intro s turns s'
  have sound : Sound .between s :=
    (create_sound table slice maxFrames journal ownsJournal workers clock pids).serveAll before
  refine ⟨fun waits => ?_, fun dispatches => sound.waiting_of_midSlice,
    fun t taken => sound.turn_counted taken⟩
  have inTurn := (sound.course_serveAll later).inTurn sound waits
  refine ⟨inTurn.others, inTurn.own, inTurn.spent, fun early => ⟨inTurn.waits early, ?_⟩⟩
  exact fun going => step?_of_waiting going (inTurn.waits early)

/-- Behind two processes that call themselves without end, while another one is started. -/
theorem bounded_waiting_behind_loops :
    let call : Value := .list [.sym [0x66]]
    let loop : Request := .spawn [call] [([0x66], .lambda ⟨0, 0⟩ [] call [])]
    let s := (create [] 7 100 {} true 1 0).serveAll [loop, loop, .spawn [.int 5] []]
    let turns := s.turns [.slice, loop, .send (.issued 1) (.int 9), .slice, .slice, .slice]
    s.ready.toList[2]? = some (.issued 3) ∧
      turns = [⟨.issued 1, 7⟩, ⟨.issued 2, 7⟩, ⟨.issued 3, 1⟩, ⟨.issued 1, 7⟩] ∧
      ((turns.take 2).map Turn.spent).sum ≤ 2 * (7 + 0) := by
  intro call loop s turns
  have waits : s.ready.toList[2]? = some (.issued 3) := by decide +kernel
  obtain ⟨bound, -⟩ := bounded_waiting [] 7 100 {} true 1 0 .counting [loop, loop, .spawn [.int 5] []]
    [.slice, loop, .send (.issued 1) (.int 9), .slice, .slice, .slice] (.issued 3) 2
  exact ⟨waits, by decide +kernel, (bound waits).2.2.1⟩

end ProcLisp.Scheduler
