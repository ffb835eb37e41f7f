import ProcLisp.Proofs.Scheduler.Letters

/-!
# From scene to scene

What is seen from a scene to the next one is what the history enters there: the letter that is sent,
the message that a process gets, and the mail that a process leaves.
-/

namespace ProcLisp.Scheduler

variable {phase : Phase} {s s' s'' : Scheduler} {p r t sender receiver : Pid} {q : Process}
  {msg reason : Value} {letter : Option Letter}

/-- What is seen from a scene to the next view is what the history enters. -/
structure Entered (a : Scene) (v : View) : Prop where
  addressed : ∀ p, v.state.history.addressed p =
    a.state.history.addressed p ++ delivered a.state p a.letter?
  received : ∀ p, v.state.history.received p = a.state.history.received p ++ a.view.gained p v
  discarded : ∀ p, v.state.history.discarded p = a.state.history.discarded p ++ a.view.forfeited p v
  strays : v.state.history.strays = a.state.history.strays + astray a.state a.letter?

theorem forfeited_kept {v w : View} (kept : p ∈ v.state.procs → p ∈ w.state.procs) :
    v.forfeited p w = [] := if_neg fun both => both.2 (kept both.1)

theorem forfeited_of_gone {v w : View} (there : v.state.procs[p]? = some q)
    (gone : p ∉ w.state.procs) : v.forfeited p w = q.mailbox.toList := by
  unfold View.forfeited
  rw [if_pos ⟨mem_procs.mpr ⟨q, there⟩, gone⟩, mailOf, there]
  rfl

theorem same_discarded {v w : View} {left left' : List Value}
    (kept : p ∈ v.state.procs → p ∈ w.state.procs) (same : left' = left) :
    left' = left ++ v.forfeited p w := by
  rw [forfeited_kept kept, List.append_nil]
  exact same

theorem same_received {v w : View} {got got' : List Value} (none : v.gained p w = [])
    (same : got' = got) : got' = got ++ v.gained p w := by
  rw [none, List.append_nil]
  exact same

/-- Nothing is in hand, before or after. -/
theorem Posted.entered {a : Scene} (posted : Posted a.letter? a.state s')
    (empty : a.view = ⟨a.state, none⟩) : Entered a ⟨s', none⟩ where
  addressed := posted.addressed
  received p := by
    rw [empty]
    exact posted.received p
  discarded p := by
    rw [empty, forfeited_kept (posted.kept p), List.append_nil]
    exact posted.discarded p
  strays := posted.strays

theorem machine?_hand (p : Pid) (m : Machine) (s : Scheduler) :
    View.machine? ⟨s, some (p, m)⟩ p = some m := if_pos rfl

/-- Who has no machine in hand is seen in the table. -/
theorem gained_table {m m' : Machine} (other : p ≠ r) :
    View.gained r ⟨s, some (p, m)⟩ ⟨s', some (p, m')⟩ = woken s s' r := by
  simp only [woken, View.gained, View.machine?, if_neg other]

theorem Posted.entered_hand {m m' : Machine} (posted : Posted (Scene.running p m s).letter? s s')
    (sound : Sound (.running p) s) (busy : m.awaits s.machine.table = false) :
    Entered (.running p m s) ⟨s', some (p, m')⟩ where
  addressed := posted.addressed
  received r := by
    by_cases same : p = r
    · subst same
      obtain ⟨q, there⟩ := mem_procs.mp (sound.1.active p rfl)
      have running := (sound.2.stands there).of_running.1
      have asleep : woken s s' p = [] := gained_of_eq
        (posted.awake p _ _ (standing?_some there) (by simp [running]))
      have none : (Scene.running p m s).view.gained p ⟨s', some (p, m')⟩ = [] :=
        gained_of_busy (machine?_hand p m s) busy
      rw [none, ← asleep]
      exact posted.received p
    · exact (posted.received r).trans (congrArg _ (gained_table same).symm)
  discarded r := by
    rw [forfeited_kept (posted.kept r), List.append_nil]
    exact posted.discarded r
  strays := posted.strays

theorem awaits_of_other {m : Machine} (table : SyscallTable) {σ : Type} {cfg : Machine.Config}
    {world : World σ} {s : σ} {d : Dispatch σ} (next : m.next? cfg world s = some d)
    (other : m.calling? table ≠ some (.wait, [])) : m.awaits table = false := by
  rw [← Bool.not_eq_true]
  exact fun awaits => other (Machine.calling?_of_awaits next awaits)

theorem awaits_of_calling {m : Machine} {table : SyscallTable}
    (calling : m.calling? table = some (.wait, [])) : m.awaits table := by
  unfold Machine.awaits
  rw [calling]
  split <;> first | rfl | contradiction

/-- The oldest message of the mailbox is taken, and the machine returns it. -/
theorem entered_taken {m m' : Machine} {rest : Queue Value}
    (silent : (Scene.running p m s).letter? = none) (awaits : m.awaits s.machine.table)
    (taken : s' = (s.update p fun q => { q with mailbox := rest }).mark (.received p msg))
    (returns : m'.control = .returning) (got : m'.val = msg) :
    Entered (.running p m s) ⟨s', some (p, m')⟩ := by
  subst got
  have asleep (r : Pid) : s'.machineOf? r = s.machineOf? r := by
    rw [taken]
    exact machineOf?_update s p (f := fun q => { q with mailbox := rest }) (fun _ => rfl) r
  have history : s'.history = .received p m'.val :: s.history := by rw [taken]; rfl
  refine ⟨fun r => ?_, fun r => ?_, fun r => same_discarded (fun there => ?_) ?_, ?_⟩
  · rw [silent, history]
    exact (List.append_nil _).symm
  · dsimp only
    rw [history, History.received]
    by_cases here : p = r
    · subst here
      have got : View.gained p ⟨s, some (p, m)⟩ ⟨s', some (p, m')⟩ = [m'.val] :=
        gained_of_awaits (machine?_hand p m s) awaits (machine?_hand p m' s') returns
      rw [if_pos rfl, ← got]
      rfl
    · rw [if_neg here]
      exact same_received ((gained_table here).trans (gained_of_eq (asleep r))) rfl
  · rw [taken]
    exact mem_update.mpr there
  · rw [history]
    rfl
  · rw [silent, history]
    rfl

/-- There is no message, and the machine waits. -/
theorem entered_blocked {m m' : Machine} (silent : (Scene.running p m s).letter? = none)
    (waits : m'.control ≠ .returning) : Entered (.running p m s) ⟨s, some (p, m')⟩ where
  addressed r := by
    rw [silent]
    exact (List.append_nil _).symm
  received r := by
    refine same_received ?_ rfl
    by_cases here : p = r
    · subst here
      exact gained_of_going (machine?_hand p m' s) waits
    · exact (gained_table here).trans (gained_of_eq rfl)
  discarded r := same_discarded id rfl
  strays := by
    rw [silent]
    rfl

/-- A machine that calls `(wait)` is seen to get what the history enters. -/
theorem entered_wait {m m' : Machine} {env : Env} (sound : Sound (.running p) s)
    (calling : m.calling? s.machine.table = some (.wait, [])) :
    Entered (.running p m s)
      ⟨(m'.dispatch s.machine (world p) (.primitive .wait) [] env s).state,
        some (p, m.after (m'.dispatch s.machine (world p) (.primitive .wait) [] env s))⟩ := by
  have silent : (Scene.running p m s).letter? = none := by simp [Scene.letter?, calling, letterOf?]
  obtain ⟨m₁, s₁, same, takes⟩ :=
    dispatch_wait s.machine m' env (sound.1.active p rfl)
  rw [same]
  cases takes with
  | oldest => exact entered_taken silent (awaits_of_calling calling) rfl rfl rfl
  | nothing => exact entered_blocked silent (by simp [Machine.after, Machine.quiet])

/-- A dispatch is seen as what it does. -/
theorem entered_dispatch {m : Machine} {d : Dispatch Scheduler} (sound : Sound (.running p) s)
    (next : m.next? s.machine (world p) s = some d) :
    Entered (.running p m s) ⟨d.state, some (p, m.after d)⟩ := by
  cases calling : m.calling? s.machine.table with
  | none =>
    have busy : m.awaits s.machine.table = false := awaits_of_other _ next (by simp [calling])
    have untouched : Untouched s d.state := by
      rcases Machine.next?_plain calling next with same | ⟨text, same⟩
      · rw [same]
        exact .refl s
      · rw [same]
        exact .of_eq rfl rfl rfl rfl
    have silent : (Scene.running p m s).letter? = none := by simp [Scene.letter?, calling]
    exact Posted.entered_hand (silent ▸ untouched.posted) sound busy
  | some call =>
    obtain ⟨primitive, args⟩ := call
    obtain ⟨m', dispatched⟩ := Machine.next?_calling (world p) s calling
    obtain rfl := Option.some.inj (next.symm.trans dispatched)
    have letter : (Scene.running p m s).letter? = s.letterOf? p primitive args := by
      simp [Scene.letter?, calling]
    by_cases waits : primitive = .wait
    · subst waits
      cases args with
      | nil => exact entered_wait sound calling
      | cons v rest =>
        have busy := awaits_of_other s.machine.table next (by simp [calling])
        exact Posted.entered_hand (letter ▸ (Untouched.refl s).posted) sound busy
    · have busy := awaits_of_other s.machine.table next (by simp [calling, waits])
      exact Posted.entered_hand (letter ▸ posted_dispatch sound waits args) sound busy

/-! ### The other scenes -/

theorem Untouched.entered {a : Scene} (untouched : Untouched a.state s') (silent : a.letter? = none)
    (empty : a.view = ⟨a.state, none⟩) : Entered a ⟨s', none⟩ :=
  Posted.entered (silent ▸ untouched.posted) empty

/-- Nothing is sent, and no machine goes on. -/
theorem Entered.still {a : Scene} {v : View} (silent : a.letter? = none)
    (asleep : ∀ r, a.view.gained r v = [])
    (kept : ∀ r, r ∈ a.view.state.procs → r ∈ v.state.procs)
    (history : v.state.history = a.state.history) : Entered a v := by
  refine ⟨fun r => ?_, fun r => ?_, fun r => ?_, ?_⟩
  · rw [history, silent]
    exact (List.append_nil _).symm
  · exact same_received (asleep r) (by rw [history])
  · exact same_discarded (kept r) (by rw [history])
  · rw [history, silent]
    rfl

theorem entered_begin {rest : Queue Pid} (there : s.procs[p]? = some q) :
    Entered (.between s) ⟨s.begin p rest, some (p, q.machine)⟩ := by
  refine .still rfl (fun r => gained_of_eq ?_) (fun r => mem_update.mpr) rfl
  by_cases here : p = r
  · subst here
    exact (machine?_hand p q.machine _).trans (machineOf?_some there).symm
  · exact (if_neg here).trans (machineOf?_update_of_ne { s with ready := rest } _ here)

/-- The machine in hand is put into the table. -/
theorem machine?_put {m : Machine} {f : Process → Process} (there : s.procs[p]? = some q)
    (put : (f q).machine = m) (r : Pid) :
    (s.update p f).machineOf? r = View.machine? ⟨s, some (p, m)⟩ r := by
  by_cases here : p = r
  · subst here
    rw [machineOf?_update_self f there, put, machine?_hand]
  · exact (machineOf?_update_of_ne s f here).trans (if_neg here).symm

theorem entered_yielded {m : Machine} (sound : Sound (.running p) s) :
    Entered (.leaving p m s) ⟨(s.tick.update p fun q =>
      { q with machine := m, state := .ready }).enqueue p, none⟩ := by
  obtain ⟨q, there⟩ := mem_procs.mp (sound.1.active p rfl)
  exact .still rfl (fun r => gained_of_eq (machine?_put there rfl r)) (fun r => mem_update.mpr) rfl

theorem gained_of_handed {m m' : Machine} (waits : m.control = .waiting)
    (after : s'.machineOf? p = some m') (returns : m'.control = .returning) :
    View.gained p ⟨s, some (p, m)⟩ ⟨s', none⟩ = [m'.val] :=
  gained_of_awaits (w := ⟨s', none⟩) (machine?_hand p m s) (Machine.awaits_waiting waits) after
    returns

/-- A message that came while the process decided to wait is handed to its machine. -/
theorem entered_handed {m : Machine} {rest : Queue Value} (waits : m.control = .waiting)
    (there : s.procs[p]? = some q) :
    Entered (.leaving p m s)
      ⟨(((s.tick.update p fun q => { q with mailbox := rest }).update p fun q => { q with
        machine := { m with control := .returning, val := msg }
        state := .ready }).mark (.received p msg)).enqueue p, none⟩ := by
  have found : (s.tick.update p fun q => { q with mailbox := rest }).procs[p]? =
      some { q with mailbox := rest } := by
    rw [procs_update, if_pos rfl]
    exact congrArg (Option.map _) there
  refine ⟨fun r => (List.append_nil _).symm, fun r => ?_, fun r => same_discarded ?_ rfl, rfl⟩
  · change History.received r (.received p msg :: s.history) = _
    rw [History.received]
    by_cases here : p = r
    · subst here
      have after := machineOf?_update_self (fun q' => { q' with
        machine := { m with control := .returning, val := msg }, state := .ready }) found
      rw [if_pos rfl]
      exact congrArg _ (gained_of_handed waits after rfl).symm
    · rw [if_neg here]
      refine same_received (gained_of_eq ?_) rfl
      refine (machineOf?_update_of_ne _ _ here).trans ((machineOf?_update_of_ne _ _ here).trans ?_)
      exact (if_neg here).symm
  · exact fun there => mem_update.mpr (mem_update.mpr there)

theorem entered_parked {m : Machine} (sound : Sound (.running p) s) (waits : m.control = .waiting) :
    Entered (.leaving p m s) ⟨s.tick.park p m, none⟩ := by
  have live : p ∈ s.tick.procs := sound.1.active p rfl
  have parked := parks waits live
  revert parked
  generalize s.tick.park p m = s'
  rintro (⟨there, -⟩ | ⟨there, -⟩)
  · exact entered_handed waits there
  · exact .still rfl (fun r => gained_of_eq (machine?_put there rfl r))
      (fun r => mem_update.mpr) rfl

theorem history_recordExit (s : Scheduler) (p : Pid) (reason : Value) :
    (s.recordExit p reason).history = s.history := by
  unfold recordExit
  split <;> rfl

theorem untouched_logExit (s : Scheduler) (p : Pid) (q : Process) (exit : Exit) :
    Untouched s (s.logExit p q exit) := by
  unfold logExit
  dsimp only
  split <;> exact untouched_log s _ _ _

/-- A process that ends leaves its mail behind. -/
theorem entered_buried {m : Machine} (sound : Sound (.running p) s) (there : s.procs[p]? = some q)
    (exit : Exit) : Entered (.leaving p m s)
      ⟨((s.tick.recordExit p exit.reason).bury p q exit).logExit p q exit, none⟩ := by
  have logged := untouched_logExit ((s.tick.recordExit p exit.reason).bury p q exit) p q exit
  have procs : ∀ r : Pid, ((s.tick.recordExit p exit.reason).bury p q exit).procs[r]? =
      if p = r then none else s.procs[r]? := by
    intro r
    change ((s.tick.recordExit p exit.reason).procs.erase p)[r]? = _
    rw [procs_recordExit, Std.TreeMap.getElem?_erase]
    simp only [Std.compare_eq_iff_eq]
    rfl
  have history : ((s.tick.recordExit p exit.reason).bury p q exit).history =
      .finalized p q.mailbox.toList :: s.history :=
    congrArg (Event.finalized p q.mailbox.toList :: ·) (history_recordExit s.tick p exit.reason)
  have mem : ∀ r, r ∈ (((s.tick.recordExit p exit.reason).bury p q exit).logExit p q exit).procs ↔
      p ≠ r ∧ r ∈ s.procs := by
    intro r
    rw [logged.mem_procs_iff, mem_procs, procs, mem_procs]
    by_cases here : p = r <;> simp [here]
  refine ⟨fun r => ?_, fun r => ?_, fun r => ?_, ?_⟩
  · refine (logged.addressed r).trans ?_
    rw [history]
    exact (List.append_nil _).symm
  · refine (logged.received r).trans (same_received ?_ (by rw [history]; rfl))
    have seen := logged.machineOf? r
    rw [Scheduler.machineOf?, Scheduler.machineOf?, procs] at seen
    by_cases here : p = r
    · rw [if_pos here] at seen
      exact gained_of_gone seen
    · rw [if_neg here] at seen
      exact gained_of_eq (seen.trans (if_neg here).symm)
  · refine (logged.discarded r).trans ?_
    rw [history, History.discarded]
    by_cases here : p = r
    · subst here
      have going := sound.1.not_ended (sound.1.apart p (sound.1.active p rfl))
      have before : (Scene.leaving p m s).state.history.discarded p = [] :=
        History.discarded_of_not_ended going
      have left := forfeited_of_gone (v := ⟨s, some (p, m)⟩) (w := ⟨_, none⟩) there
        fun member => ((mem p).mp member).1 rfl
      rw [if_pos rfl, before, List.nil_append]
      exact left.symm
    · rw [if_neg here]
      exact same_discarded (fun member => (mem r).mpr ⟨here, member⟩) rfl
  · refine logged.strays.trans ?_
    rw [history]
    rfl

theorem kept_buried (holds : Sound (.running p) s ∧ Mail s) (there : s.procs[p]? = some q)
    (exit : Exit) :
    Sound (.ending p) (((s.tick.recordExit p exit.reason).bury p q exit).logExit p q exit) ∧
      Mail (((s.tick.recordExit p exit.reason).bury p q exit).logExit p q exit) := by
  have ticked : Sound (.running p) s.tick ∧ Mail s.tick :=
    steady_mail.change holds (.aside s.logs s.printed _ s.journal s.limiter)
  have recorded := steady_mail.changes ticked (changes_recordExit _ p exit.reason)
  have buried := steady_mail.buried exit recorded (by rw [procs_recordExit]; exact there)
  exact steady_mail.changes buried (changes_logExit _ p q exit)

/-- What is asked from outside, the slices apart that it may call for. -/
theorem entered_asked (sound : Sound phase s) {request : Request} (single : request.isExec = false)
    (other : request ≠ .slice) : Entered (.asked request s) ⟨s.serve request, none⟩ := by
  cases request with
  | exec => cases single
  | slice => exact absurd rfl other
  | spawn exprs env =>
    simp only [serve]
    split
    · rename_i made
      exact Posted.entered (posted_born sound.1 made) rfl
    · exact Untouched.entered (.refl s) rfl rfl
  | send receiver msg =>
    simp only [serve, sendOutside]
    rcases posted_send sound Pid.nil receiver msg.copy with ⟨s', sent, posted⟩ | ⟨refused, posted⟩
    · rw [sent]
      exact Posted.entered posted rfl
    · rw [refused]
      exact Posted.entered posted rfl
  | info p =>
    simp only [serve]
    split
    · rename_i told
      rcases info_ok told with rfl | ⟨-, rfl⟩
      · exact Untouched.entered (.refl _) rfl rfl
      · exact Untouched.entered (.of_eq rfl rfl rfl rfl) rfl rfl
    · exact Untouched.entered (.refl s) rfl rfl
  | start =>
    simp only [serve]
    split
    · rename_i done
      obtain ⟨attrs, rfl⟩ := start_ok done
      exact Untouched.entered (.of_eq rfl rfl rfl rfl) rfl rfl
    · exact Untouched.entered (.refl s) rfl rfl
  | stop =>
    rcases stop_cases s with same | ⟨journal, -, same⟩
    · simp only [serve, same]
      exact Untouched.entered (.refl s) rfl rfl
    · simp only [serve, same]
      exact Untouched.entered (.of_eq rfl rfl rfl rfl) rfl rfl

end ProcLisp.Scheduler
