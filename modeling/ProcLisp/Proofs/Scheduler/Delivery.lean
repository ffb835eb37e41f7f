import ProcLisp.Proofs.Scheduler.Entries
import ProcLisp.Proofs.Scheduler.Undisturbed

/-!
# No mail is lost, doubled or out of order

The scenes of a run lead from one to the next, so the books that the history keeps of the run are
those of its scenes. What was sent to a process, as the machines and the requests show it, is what
the process is seen to get, and then its mailbox.
-/

namespace ProcLisp.Scheduler

variable {phase : Phase} {s s' s'' : Scheduler} {p r t sender receiver : Pid} {q : Process}
  {msg reason : Value} {letter : Option Letter}

/-! ### Whole runs -/

theorem Scene.view_state (a : Scene) : a.view.state = a.state := by
  cases a <;> rfl

/-- Scenes that lead from one view to another. -/
inductive Path : View → Scenes → View → Prop
  | nil (v : View) : Path v [] v
  | cons {a : Scene} {v w : View} {later : Scenes}
      (holds : ∃ phase, Sound phase a.state ∧ Mail a.state) (entered : Entered a v)
      (path : Path v later w) : Path a.view (a :: later) w

namespace Path

variable {u v w : View} {run later : Scenes}

theorem single {a : Scene} (holds : Sound phase a.state ∧ Mail a.state) (entered : Entered a v) :
    Path a.view [a] v := .cons ⟨phase, holds⟩ entered (.nil v)

theorem append (first : Path u run v) (second : Path v later w) : Path u (run ++ later) w := by
  induction first with
  | nil => exact second
  | cons holds entered _ ih => exact .cons holds entered (ih second)

/-- The watchers of a process that is gone. -/
theorem tellings (reason : Value) (watchers : List Pid) (holds : Sound (.ending p) s ∧ Mail s) :
    Path ⟨s, none⟩ (tellings p reason watchers s)
      ⟨(watchers.foldl (fun s w => s.notify p reason w) s).release p, none⟩ := by
  induction watchers generalizing s with
  | nil =>
    have entered : Entered (.releasing p s) ⟨s.release p, none⟩ :=
      Untouched.entered (.of_eq rfl rfl rfl rfl) rfl rfl
    exact single (a := .releasing p s) holds entered
  | cons w others ih =>
    have told := steady_mail.changes holds (changes_notify s p reason w)
    exact .cons (a := .telling p reason w s) ⟨_, holds⟩
      (Posted.entered (posted_notify holds.1 p reason w) rfl) (ih told)

theorem settings_dispatch {cfg : Machine.Config} {m : Machine} {d : Dispatch Scheduler}
    (sound : Sound phase s) (next : m.next? cfg (world p) s = some d) :
    d.state.machine = s.machine := by
  have changed := (keeps_changes s p).effect (Machine.next?_effect next) .refl
  exact (Undisturbed.changes (p := p) sound changed).settings.machine

/-- The dispatches of a slice, up to the point where it is over. -/
theorem dispatches {cfg : Machine.Config} (fuel budget : Nat) {m : Machine}
    (settings : s.machine = cfg) (holds : Sound (.running p) s ∧ Mail s) :
    ∃ (c : Machine × Scheduler) (ran : Scenes), (Sound (.running p) c.2 ∧ Mail c.2) ∧
      (m.runFor cfg (world p) fuel budget s = c.1.pause c.2 ∨
        m.runFor cfg (world p) fuel budget s = Machine.stop c) ∧
      dispatches cfg p fuel budget m s = ran ++ [.leaving p c.1 c.2] ∧
      Path ⟨s, some (p, m)⟩ ran ⟨c.2, some (p, c.1)⟩ := by
  induction fuel generalizing budget m s with
  | zero => exact ⟨(m, s), [], holds, .inl rfl, rfl, .nil _⟩
  | succ fuel ih =>
    unfold Machine.runFor Scheduler.dispatches
    by_cases halts : budget = 0 || m.halted?.isSome
    · rw [if_pos halts, if_pos halts]
      exact ⟨(m, s), [], holds, .inl rfl, rfl, .nil _⟩
    rw [if_neg halts, if_neg halts]
    cases next : m.next? cfg (world p) s with
    | none =>
      refine ⟨(m, s), [], holds, .inr ?_, rfl, .nil _⟩
      have going : m.halted? = none := by
        cases halted : m.halted? with
        | none => rfl
        | some stop => exact absurd (by simp [halted]) halts
      simp [Machine.stop, going]
    | some d =>
      subst settings
      have kept := steady_mail.changes holds
        ((keeps_changes s p).effect (Machine.next?_effect next) .refl)
      obtain ⟨c, ran, at_end, ended, same, path⟩ := ih (budget - 1 - d.charge)
        (m := m.after d) (settings_dispatch holds.1 next) kept
      refine ⟨c, .running p m s :: ran, at_end, ended, ?_, ?_⟩
      · dsimp only
        rw [same]
        rfl
      · exact .cons (a := .running p m s) ⟨_, holds⟩ (entered_dispatch holds.1 next) path

/-- Where the machine is put back or parked, it is put there as it came out of its last dispatch. -/
theorem halt_cases {c : Machine × Scheduler} {r : Progress Scheduler}
    (ended : r = c.1.pause c.2 ∨ r = Machine.stop c) : r.state = c.2 ∧
      (r.status = .yielded → r.machine = c.1) ∧
      (r.status = .blocked → r.machine = c.1 ∧ c.1.control = .waiting) := by
  rcases ended with rfl | rfl
  all_goals
    cases control : c.1.control <;>
      simp [Machine.pause, Machine.stop, Machine.halted?, control]

theorem endScenes_retired {r : Progress Scheduler}
    (status : r.status = .done ∨ r.status = .terminated) (there : r.state.procs[p]? = some q) :
    endScenes p r = Scheduler.tellings p (Exit.ofMachine r.machine).reason q.watchers
      (((r.state.tick.recordExit p (Exit.ofMachine r.machine).reason).bury p q
        (Exit.ofMachine r.machine)).logExit p q (Exit.ofMachine r.machine)) := by
  unfold endScenes
  rw [there]
  rcases status with same | same <;> rw [same]

theorem stepScenes_none (none : s.step? = none) : s.stepScenes = [] := by
  unfold step? at none
  unfold stepScenes
  split
  · rfl
  · rename_i going
    rw [if_neg going] at none
    cases popped : s.ready.pop? with
    | none => rfl
    | some first => simp [popped] at none

theorem step (holds : Sound .between s ∧ Mail s) (stepped : s.step? = some (p, s')) :
    Path ⟨s, none⟩ s.stepScenes ⟨s', none⟩ := by
  obtain ⟨rest, q, going, popped, there, -, ended⟩ := holds.1.step_cases stepped
  have begun := steady_mail.begin holds popped
  obtain ⟨c, ran, inside, halted, same, path⟩ :=
    dispatches s.slice s.slice (m := q.machine) (s := s.begin p rest) rfl begun
  have scenes : s.stepScenes = .between s :: (ran ++ [.leaving p c.1 c.2] ++
      endScenes p (s.runFrom p rest q)) := by
    simp only [stepScenes, going, popped, there]
    exact congrArg (fun seen => .between s :: (seen ++ _)) same
  have first : Entered (.between s) ⟨s.begin p rest, some (p, q.machine)⟩ := entered_begin there
  have through := Path.cons (a := .between s) ⟨_, holds⟩ first path
  obtain ⟨state, yielded, blocked⟩ := halt_cases (r := s.runFrom p rest q) halted
  rw [scenes, List.append_assoc]
  refine through.append ?_
  cases ended with
  | yielded status =>
    rw [state, yielded status, endScenes, status]
    exact .single inside (entered_yielded inside.1)
  | parked status =>
    obtain ⟨machine, waits⟩ := blocked status
    rw [state, machine, endScenes, status]
    exact .single inside (entered_parked inside.1 waits)
  | @retired q' status there' =>
    rw [endScenes_retired status there', state]
    rw [state] at there'
    have logged := kept_buried inside there' (Exit.ofMachine (s.runFrom p rest q).machine)
    exact (single inside (entered_buried inside.1 there' _)).append (tellings _ q'.watchers logged)

theorem slices (halt : Scheduler → Bool) (most done : Nat) (holds : Sound .between s ∧ Mail s) :
    Path ⟨s, none⟩ (untilScenes halt most s) ⟨(runUntil halt most done s).2, none⟩ := by
  induction most generalizing done s with
  | zero => exact .nil _
  | succ most ih =>
    unfold runUntil untilScenes
    split
    · exact .nil _
    · cases stepped : s.step? with
      | none => exact .nil _
      | some next =>
        obtain ⟨p, s'⟩ := next
        exact (step holds stepped).append (ih (done + 1) (steady_mail.slice holds stepped))

theorem serve (request : Request) (holds : Sound .between s ∧ Mail s) :
    Path ⟨s, none⟩ (s.serveScenes request) ⟨s.serve request, none⟩ := by
  have asked {s' : Scheduler} (entered : Entered (.asked request s) ⟨s', none⟩) {later : Scenes}
      {w : View} (path : Path ⟨s', none⟩ later w) :
      Path ⟨s, none⟩ (.asked request s :: later) w :=
    .cons (a := .asked request s) ⟨_, holds⟩ entered path
  cases request with
  | exec exprs env most =>
    simp only [serveScenes, Scheduler.serve]
    cases made : s.spawn exprs env with
    | error f => exact asked (Untouched.entered (.refl s) rfl rfl) (.nil _)
    | ok spawned =>
      have born := Posted.entered (a := .asked (.exec exprs env most) s)
        (posted_born holds.1.1 made) rfl
      exact asked born (slices _ most 0 (steady_mail.spawned holds made))
  | slice =>
    simp only [serveScenes, Scheduler.serve]
    refine asked (Untouched.entered (.refl s) rfl rfl) ?_
    cases stepped : s.step? with
    | none =>
      rw [stepScenes_none stepped]
      exact .nil _
    | some next => exact step holds stepped
  | _ => exact asked (entered_asked holds.1 rfl (by simp)) (.nil _)

theorem scenes (requests : List Request) (holds : Sound .between s ∧ Mail s) :
    Path ⟨s, none⟩ (s.scenes requests) ⟨s.serveAll requests, none⟩ := by
  induction requests generalizing s with
  | nil => exact single (a := .between s) holds (Untouched.entered (.refl s) rfl rfl)
  | cons request later ih =>
    exact (serve request holds).append (ih (steady_mail.serve request holds))

/-! ### The books of a run -/

theorem head (path : Path v run w) {now : Scene} (here : now.view = w) :
    ∃ a rest, run ++ [now] = a :: rest ∧ a.view = v := by
  cases path with
  | nil => exact ⟨now, [], rfl, here⟩
  | @cons a _ _ later => exact ⟨a, later ++ [now], rfl, rfl⟩

theorem split {earlier : Scenes} {now : Scene} (path : Path v (earlier ++ now :: later) w) :
    Path v earlier now.view ∧ ∃ phase, Sound phase now.state ∧ Mail now.state := by
  generalize whole : earlier ++ now :: later = run at path
  induction path generalizing earlier with
  | nil => simp at whole
  | cons holds entered path ih =>
    cases earlier with
    | nil =>
      obtain ⟨rfl, rfl⟩ := List.cons.inj whole
      exact ⟨.nil _, holds⟩
    | cons a earlier =>
      obtain ⟨rfl, same⟩ := List.cons.inj whole
      obtain ⟨before, now⟩ := ih same
      exact ⟨.cons holds entered before, now⟩

/-- What the history entered on the way is what is seen of it. -/
theorem addressed (path : Path v run w) (p : Pid) :
    w.state.history.addressed p = v.state.history.addressed p ++ run.addressed p := by
  induction path with
  | nil => exact (List.append_nil _).symm
  | @cons a v w later _ entered _ ih =>
    rw [ih, entered.addressed, a.view_state, List.append_assoc]
    rfl

theorem strays (path : Path v run w) :
    w.state.history.strays = v.state.history.strays + run.strays := by
  induction path with
  | nil => rfl
  | @cons a v w later _ entered _ ih =>
    rw [ih, entered.strays, a.view_state, Scenes.strays, Nat.add_assoc]

theorem received (path : Path v run w) {now : Scene} (here : now.view = w) (p : Pid) :
    w.state.history.received p =
      v.state.history.received p ++ Scenes.obtained p (run ++ [now]) := by
  induction path with
  | nil => exact (List.append_nil _).symm
  | @cons a v w later _ entered path ih =>
    obtain ⟨b, rest, next, same⟩ := path.head here
    have first : Scenes.obtained p (a :: later ++ [now]) =
        a.view.gained p v ++ Scenes.obtained p (later ++ [now]) := by
      rw [List.cons_append, next, ← same]
      rfl
    rw [ih here, entered.received, a.view_state, first, List.append_assoc]

theorem discarded (path : Path v run w) {now : Scene} (here : now.view = w) (p : Pid) :
    w.state.history.discarded p =
      v.state.history.discarded p ++ Scenes.forfeited p (run ++ [now]) := by
  induction path with
  | nil => exact (List.append_nil _).symm
  | @cons a v w later _ entered path ih =>
    obtain ⟨b, rest, next, same⟩ := path.head here
    have first : Scenes.forfeited p (a :: later ++ [now]) =
        a.view.forfeited p v ++ Scenes.forfeited p (later ++ [now]) := by
      rw [List.cons_append, next, ← same]
      rfl
    rw [ih here, entered.discarded, a.view_state, first, List.append_assoc]

end Path

/-- The last scene is what a run leaves. -/
theorem scenes_last (s : Scheduler) (requests : List Request) :
    ∃ earlier, s.scenes requests = earlier ++ [.between (s.serveAll requests)] := by
  induction requests generalizing s with
  | nil => exact ⟨[], rfl⟩
  | cons request later ih =>
    obtain ⟨earlier, same⟩ := ih (s.serve request)
    exact ⟨s.serveScenes request ++ earlier, by rw [scenes, same, List.append_assoc]; rfl⟩

/-- What a process received in a run is what it is seen to get. -/
theorem received_scenes (holds : Sound .between s ∧ Mail s) (requests : List Request) (p : Pid) :
    (s.serveAll requests).history.received p =
      s.history.received p ++ Scenes.obtained p (s.scenes requests) := by
  obtain ⟨earlier, whole⟩ := scenes_last s requests
  have path := Path.scenes requests holds
  rw [whole] at path ⊢
  exact path.split.1.received rfl p

/-- At every moment of every run, read off its scenes: the messages sent to a process while it was
live are those that it got, and then those in its mailbox, or those that it left unread at its end;
so it got those of each sender in their order. Only messages to processes that are gone are dropped
and counted, and nothing else comes of them. The history enters just that. A message that a program
or a request sends to a pid that was issued is delivered as it is, and what a program gets by
`(wait)`, or a machine as it is parked, is the oldest message in the mailbox. A pid that was never
issued is refused. -/
theorem mail_accounted_for (table : SyscallTable) (slice maxFrames : Int) (journal : Journal)
    (ownsJournal : Bool) (workers clock : Nat) (pids : Pid.Source) (requests : List Request)
    {earlier later : Scenes} {now : Scene}
    (run : (create table slice maxFrames journal ownsJournal workers clock pids).scenes requests =
      earlier ++ now :: later) :
    let s := now.state
    let seen := earlier ++ [now]
    (later = [] → s =
      (create table slice maxFrames journal ownsJournal workers clock pids).serveAll requests) ∧
    (∀ p q, s.procs[p]? = some q →
      (earlier.addressed p).map (·.2) = Scenes.obtained p seen ++ q.mailbox.toList) ∧
    (∀ p ∈ s.retired,
      (earlier.addressed p).map (·.2) = Scenes.obtained p seen ++ Scenes.forfeited p seen) ∧
    (∀ p, ∃ taken, taken <+: earlier.addressed p ∧ taken.map (·.2) = Scenes.obtained p seen ∧
      ∀ sender, taken.filter (·.1 = sender) <+: (earlier.addressed p).filter (·.1 = sender)) ∧
    s.dropped = earlier.strays ∧
    (∀ p, s.history.addressed p = earlier.addressed p ∧
      s.history.received p = Scenes.obtained p seen ∧
      s.history.discarded p = Scenes.forfeited p seen) ∧
    (∀ sender receiver msg, s.HasIssued receiver →
      ∃ s', s.send sender receiver msg = .ok s' ∧ Delivers s sender receiver msg s') ∧
    (∀ sender receiver msg, s.HasIssued receiver → ∃ s', Delivers s sender receiver msg.copy s' ∧
      ∀ cfg (m : Machine) env,
        m.dispatch cfg (world sender) (.primitive .send) [.pid receiver, msg] env s =
          Machine.quiet s' (.ok (m.ret (.pid receiver) env))) ∧
    (∀ receiver msg, s.HasIssued receiver →
      Delivers s Pid.nil receiver msg.copy (s.serve (.send receiver msg))) ∧
    (∀ cfg (m : Machine) env, ∀ p ∈ s.procs, ∃ m' s',
      m.dispatch cfg (world p) (.primitive .wait) [] env s = Machine.quiet s' (.ok m') ∧
        Takes s p { m with env := env } m' s') ∧
    (∀ m : Machine, m.control = .waiting → ∀ p ∈ s.procs, Parks s p m (s.park p m)) ∧
    (∀ sender receiver msg, receiver ∈ s.retired → ∃ limiter logs,
      s.send sender receiver msg = .ok { s with
        dropped := s.dropped + 1, history := .sent sender receiver msg :: s.history,
        limiter, logs }) ∧
    (∀ receiver msg, ¬ s.HasIssued receiver →
      s.sendOutside receiver msg = .error (.unknownProcess receiver) ∧
      s.serve (.send receiver msg) = s ∧
      ∀ cfg (m : Machine) p env,
        m.dispatch cfg (world p) (.primitive .send) [.pid receiver, msg] env s =
          Machine.quiet s (.error (.unknownProcess receiver))) := by
  intro s seen
  obtain ⟨before, last⟩ := scenes_last
    (create table slice maxFrames journal ownsJournal workers clock pids) requests
  have path := Path.scenes requests
    ⟨create_sound table slice maxFrames journal ownsJournal workers clock pids,
      create_mail table slice maxFrames journal ownsJournal workers clock pids⟩
  rw [run] at path last
  obtain ⟨way, phase, sound, mail⟩ := path.split
  have here : s = now.view.state := now.view_state.symm
  have addressed (p : Pid) : s.history.addressed p = earlier.addressed p := by
    rw [here]
    exact way.addressed p
  have received (p : Pid) : s.history.received p = Scenes.obtained p seen := by
    rw [here]
    exact way.received rfl p
  have discarded (p : Pid) : s.history.discarded p = Scenes.forfeited p seen := by
    rw [here]
    exact way.discarded rfl p
  have strays : s.history.strays = earlier.strays := by
    rw [here]
    exact way.strays.trans (Nat.zero_add _)
  have kept (p : Pid) : (earlier.addressed p).map (·.2) = Scenes.obtained p seen ++ s.unread p := by
    rw [← addressed, ← received]
    exact mail.kept p
  refine ⟨?_, ?_, ?_, ?_, mail.dropped.trans strays, ?_, ?_, ?_, ?_, ?_, ?_, ?_, ?_⟩
  · rintro rfl
    exact congrArg Scene.state (List.cons.inj (List.append_inj_right' last rfl)).1
  · intro p q there
    rw [kept p, unread_some there]
  · intro p gone
    have absent := not_mem_procs.mp fun there => sound.1.apart p there gone
    rw [kept p, unread_none absent, discarded p]
  · intro p
    obtain ⟨taken, first, same⟩ := mail.received_first p
    rw [addressed] at first
    exact ⟨taken, first, same.trans (received p), fun sender => first.filter _⟩
  · exact fun p => ⟨addressed p, received p, discarded p⟩
  · exact fun sender receiver msg issued => sound.send_delivers issued sender msg
  · exact fun sender receiver msg issued => sound.dispatch_send issued sender msg
  · exact fun receiver msg issued => sound.serve_send issued msg
  · exact fun cfg m env p live => dispatch_wait cfg m env live
  · exact fun m waits p live => parks waits live
  · exact fun sender receiver msg gone => sound.send_gone gone sender msg
  · exact fun receiver msg unissued => sound.refuses_unissued unissued msg

/-- The first process waits twice and leaves with what it got. The second sends it two messages, of
which one goes straight to its machine and one to the mailbox, and ends with one of its own unread;
a third message comes when the first process is gone. A machine that is parked when there is mail is
handed it. -/
theorem mail_accounted_for_two :
    let wait : Value := .list [.sym (ascii "wait")]
    let send (receiver : Nat) (n : Int64) : Value :=
      .list [.sym (ascii "send"), .pid (.issued receiver), .int n]
    let leave (reason : Value) : Value := .list [.sym (ascii "terminate"), reason]
    let s := create [] 20 100 {} true 1 0
    let requests : List Request := [
      .spawn [leave (.list [.sym (ascii "list"), wait, wait])] [], .slice,
      .spawn [send 1 7, send 1 8, send 2 5] [], .slice, .slice, .spawn [send 1 9] [], .slice]
    let run := s.scenes requests
    let left := s.serveAll requests
    let mailed := s.serveAll [.spawn [wait] [], .send (.issued 1) (.int 7)]
    let parked := mailed.park (.issued 1) { control := .waiting }
    (Scenes.obtained (.issued 1) run).map (·.encode) = [ascii "7", ascii "8"] ∧
    (Scenes.forfeited (.issued 2) run).map (·.encode) = [ascii "5"] ∧
    (left.retired[Pid.issued 1]?).map (·.reason.encode) = some (ascii "(7 8)") ∧
    (∃ earlier, run = earlier ++ [.between left] ∧ left.dropped = Scenes.strays earlier ∧
      ∀ p ∈ left.retired, (Scenes.addressed p earlier).map (·.2) =
        Scenes.obtained p run ++ Scenes.forfeited p run) ∧
    left.dropped = 1 ∧ .issued 1 ∈ left.retired ∧ .issued 2 ∈ left.retired ∧
    Parks mailed (.issued 1) { control := .waiting } parked ∧
    (parked.machineOf? (.issued 1)).map (·.val.encode) = some (ascii "7") := by
  intro wait send leave s requests run left mailed parked
  obtain ⟨earlier, whole⟩ := scenes_last s requests
  obtain ⟨before, first⟩ := scenes_last s [.spawn [wait] [], .send (.issued 1) (.int 7)]
  have books := mail_accounted_for [] 20 100 {} true 1 0 .counting requests whole
  have parks := mail_accounted_for [] 20 100 {} true 1 0 .counting
    [.spawn [wait] [], .send (.issued 1) (.int 7)] first
  dsimp only [Scene.state] at books parks
  obtain ⟨-, -, ended, -, dropped, -⟩ := books
  obtain ⟨-, -, -, -, -, -, -, -, -, -, parks, -⟩ := parks
  rw [← whole] at ended
  refine ⟨by decide +kernel, by decide +kernel, by decide +kernel, ⟨earlier, whole, dropped, ended⟩,
    by decide +kernel, by decide +kernel, by decide +kernel,
    parks { control := .waiting } rfl (.issued 1) (by decide +kernel), by decide +kernel⟩

end ProcLisp.Scheduler
