import ProcLisp.Proofs.Machine.Slices

/-!
# Preemption and the time of delivery do not show

A process is run in slices, and its messages reach it before it asks for them or while it waits.
Both are compared with one long run that finds all messages in its inbox from the start: every
schedule leads to points of that run, so all that stop, stop at the same one.
-/

namespace ProcLisp

/-- What a machine asks of its host, messages apart. -/
inductive Call where
  | send (receiver : Pid) (msg : Value)
  | watch (target : Pid)
  | fork (birth : Birth) (child : Machine)

/-- The answers of a host, which depend on the calls made before (newest first) and on nothing
else. -/
structure Answers where
  self : Pid
  send : List Call → Pid → Value → Option Trouble
  watch : List Call → Pid → Option Trouble
  fork : List Call → Birth → Machine → Except Trouble Pid

/-- What a process did, newest first, and the messages it can take. -/
structure Desk where
  calls : List Call := []
  printed : Transcript := []
  inbox : List Value := []

def Answers.host (a : Answers) : Host Desk where
  self := a.self
  send receiver msg d := match a.send d.calls receiver msg with
    | some e => .error e
    | none => .ok { d with calls := .send receiver msg :: d.calls }
  receive d := match d.inbox with
    | [] => none
    | msg :: rest => some (msg, { d with inbox := rest })
  fork birth child d := match a.fork d.calls birth child with
    | .error e => .error e
    | .ok pid => .ok (pid, { d with calls := .fork birth child :: d.calls })
  watch target d := match a.watch d.calls target with
    | some e => .error e
    | none => .ok { d with calls := .watch target :: d.calls }

def Answers.world (a : Answers) : World Desk where
  print text d := { d with printed := text :: d.printed }
  host := some a.host

/-- A step of a schedule. -/
inductive Move where
  | run (budget : Nat)
  | deliver

/-- A process and the messages that are still to be delivered to it. -/
structure Setting where
  machine : Machine
  desk : Desk := {}
  coming : List Value

namespace Setting

/-- A delivery resumes a machine that waits, and else adds to the inbox. -/
def move (cfg : Machine.Config) (a : Answers) (x : Setting) : Move → Setting
  | .run budget =>
    let p := x.machine.run cfg a.world budget x.desk
    { x with machine := p.machine, desk := p.state }
  | .deliver => match x.coming with
    | [] => x
    | msg :: rest => match x.machine.resume msg with
      | .ok m => { x with machine := m, coming := rest }
      | .error _ => { x with desk.inbox := x.desk.inbox ++ [msg], coming := rest }

def follow (cfg : Machine.Config) (a : Answers) (moves : List Move) (x : Setting) : Setting :=
  moves.foldl (move cfg a) x

end Setting

/-! ### Dispatches with more messages to come -/

/-- The desk with more messages in its inbox. -/
def Desk.expect (d : Desk) (ms : List Value) : Desk := { d with inbox := d.inbox ++ ms }

theorem Desk.expect_nil (d : Desk) : d.expect [] = d := by
  simp [Desk.expect]

namespace Answers

variable (a : Answers) (d : Desk) (ms : List Value)

theorem send_expect (receiver : Pid) (msg : Value) :
    a.host.send receiver msg (d.expect ms) = (a.host.send receiver msg d).map (·.expect ms) := by
  simp only [host, Desk.expect]
  cases a.send d.calls receiver msg <;> rfl

theorem fork_expect (birth : Birth) (child : Machine) :
    a.host.fork birth child (d.expect ms) =
      (a.host.fork birth child d).map fun forked => (forked.1, forked.2.expect ms) := by
  simp only [host, Desk.expect]
  cases a.fork d.calls birth child <;> rfl

theorem watch_expect (target : Pid) :
    a.host.watch target (d.expect ms) = (a.host.watch target d).map (·.expect ms) := by
  simp only [host, Desk.expect]
  cases a.watch d.calls target <;> rfl

end Answers

namespace Machine

variable {cfg : Config} {a : Answers} {m : Machine} {d : Desk} {env : Env}

/-- The machine goes on, or has terminated. -/
def isBusy (m : Machine) : Bool :=
  match m.control with
  | .eval _ | .returning | .terminated _ => true
  | _ => false

/-- The dispatches from a desk and from the same desk with the messages `ms` added: they do the
same, unless the first one waits for a message and the second one gets it. -/
def Parallel (ms : List Value) (d₁ d₂ : Dispatch Desk) : Prop :=
  (d₂ = { d₁ with state := d₁.state.expect ms } ∧ ∀ m, d₁.machine = .ok m → m.isBusy) ∨
  ∃ m, d₁.machine = .ok m ∧ m.control = .waiting ∧ d₁.state.inbox = [] ∧
    match ms with
    | [] => d₂ = d₁
    | msg :: rest => d₂ = { d₁ with
        state := d₁.state.expect rest
        machine := .ok { m with control := .returning, val := msg } }

theorem parallel_ok (ms : List Value) (d : Desk) (busy : m.isBusy) :
    Parallel ms (quiet d (.ok m)) (quiet (d.expect ms) (.ok m)) := by
  refine .inl ⟨rfl, fun m' same => ?_⟩
  obtain rfl := Except.ok.inj same
  exact busy

theorem parallel_error (ms : List Value) (d : Desk) (f : Failure) :
    Parallel ms (quiet d (.error f)) (quiet (d.expect ms) (.error f)) :=
  .inl ⟨rfl, fun _ same => nomatch same⟩

theorem parallel_eval (ms : List Value) (d : Desk) (x : Except Failure Machine) (e : Value)
    (env : Env) :
    Parallel ms (quiet d (x.map (·.eval e env))) (quiet (d.expect ms) (x.map (·.eval e env))) := by
  cases x with
  | error f => exact parallel_error ms d f
  | ok m => exact parallel_ok ms d rfl

theorem parallel_sequence (ms : List Value) (d : Desk) (first : Value) (rest : List Value) :
    Parallel ms (quiet d (m.evalSequence cfg first rest env))
      (quiet (d.expect ms) (m.evalSequence cfg first rest env)) := by
  cases rest with
  | nil => exact parallel_ok ms d rfl
  | cons next others => exact parallel_eval ms d _ first env

/-- The one dispatch that can tell the two desks apart. -/
theorem parallel_wait (cfg : Config) (ms : List Value) :
    Parallel ms (m.perform cfg a.host .wait [] env d)
      (m.perform cfg a.host .wait [] env (d.expect ms)) := by
  obtain ⟨calls, printed, inbox⟩ := d
  cases inbox with
  | cons msg rest => exact parallel_ok ms ⟨calls, printed, rest⟩ rfl
  | nil =>
    refine .inr ⟨_, rfl, rfl, rfl, ?_⟩
    cases ms with
    | nil => rfl
    | cons msg rest => rfl

theorem parallel_perform (ms : List Value) (p : Primitive) (args : List Value) :
    Parallel ms (m.perform cfg a.host p args env d)
      (m.perform cfg a.host p args env (d.expect ms)) := by
  unfold perform
  split
  · exact parallel_ok ms d rfl
  · rw [Answers.fork_expect]
    cases a.host.fork .fork _ d with
    | error e => exact parallel_error ms d _
    | ok forked => exact parallel_ok ms forked.2 rfl
  · split
    · exact parallel_error ms d _
    · split
      · exact parallel_error ms d _
      · rename_i child made
        simp only [Answers.fork_expect]
        cases a.host.fork .spawn child d with
        | error e => exact parallel_error ms d _
        | ok forked => exact parallel_ok ms forked.2 rfl
  · exact parallel_error ms d _
  · rename_i receiver msg
    simp only [Answers.send_expect]
    cases a.host.send receiver msg.copy d with
    | error e => exact parallel_error ms d _
    | ok sent => exact parallel_ok ms sent rfl
  · exact parallel_error ms d _
  · exact parallel_wait cfg ms
  · rename_i target
    simp only [Answers.watch_expect]
    cases a.host.watch target d with
    | error e => exact parallel_error ms d _
    | ok watched => exact parallel_ok ms watched rfl
  · exact parallel_error ms d _
  · exact parallel_ok ms d rfl
  · exact parallel_error ms d _

theorem parallel_dispatch (ms : List Value) (target : Target) (args : List Value) :
    Parallel ms (m.dispatch cfg a.world target args env d)
      (m.dispatch cfg a.world target args env (d.expect ms)) := by
  cases target with
  | list => exact parallel_ok ms d rfl
  | syscall name =>
    simp only [dispatch]
    cases cfg.table.lookup name args.length with
    | error f => exact parallel_error ms d f
    | ok sc =>
      refine .inl ⟨?_, fun m' same => ?_⟩
      · simp only
        split <;> rfl
      · simp only at same
        cases result : (sc.call args).2 with
        | error f => simp [result, Except.map] at same
        | ok v =>
          simp only [result, Except.map, Except.ok.injEq] at same
          rw [← same]
          rfl
  | primitive p => exact parallel_perform ms p args
  | apply params body captured => exact parallel_eval ms d _ _ _

theorem parallel_evalArgs (ms : List Value) (target : Target) (args : List Value) :
    Parallel ms (m.evalArgs cfg a.world target args env d)
      (m.evalArgs cfg a.world target args env (d.expect ms)) := by
  cases args with
  | nil => exact parallel_dispatch ms target []
  | cons e pending => exact parallel_eval ms d _ e env

theorem parallel_evalForm (ms : List Value) (form : Form) :
    Parallel ms (m.evalForm cfg a.world form env d)
      (m.evalForm cfg a.world form env (d.expect ms)) := by
  cases form with
  | value v => exact parallel_ok ms d rfl
  | lookup name =>
    simp only [evalForm]
    cases env.lookup name with
    | error f => exact parallel_error ms d f
    | ok v => exact parallel_ok ms d rfl
  | branch test yes no => exact parallel_eval ms d _ _ _
  | sequence first rest => exact parallel_sequence ms d first rest
  | define name expr => exact parallel_eval ms d _ _ _
  | letIn bindings first rest =>
    simp only [evalForm]
    cases m.pushRestore cfg env with
    | error f => exact parallel_error ms d f
    | ok m => cases bindings with
      | nil => exact parallel_sequence ms d first rest
      | cons binding others => exact parallel_eval ms d _ _ _
  | lambda params body => exact parallel_ok ms d rfl
  | cond clauses => cases clauses with
    | nil => exact parallel_ok ms d rfl
    | cons clause others => exact parallel_eval ms d _ _ _
  | list items => exact parallel_evalArgs ms .list items
  | primitive p args => exact parallel_evalArgs ms (.primitive p) args
  | syscall name args => exact parallel_evalArgs ms (.syscall name) args
  | apply head args => exact parallel_eval ms d _ _ _

theorem parallel_resumeFrame (ms : List Value) (k : Frame) (v : Value) :
    Parallel ms (m.resumeFrame cfg a.world k v env d)
      (m.resumeFrame cfg a.world k v env (d.expect ms)) := by
  cases k with
  | branch yes no => exact parallel_ok ms d rfl
  | sequence first rest => exact parallel_sequence ms d first rest
  | define name => exact parallel_ok ms d rfl
  | binding name others first rest => cases others with
    | nil => exact parallel_sequence ms d first rest
    | cons binding others => exact parallel_eval ms d _ _ _
  | restore saved => exact parallel_ok ms d rfl
  | clause body others =>
    simp only [resumeFrame]
    split
    · exact parallel_ok ms d rfl
    · cases others with
      | nil => exact parallel_ok ms d rfl
      | cons clause others => exact parallel_eval ms d _ _ _
  | arguments target done pending => cases pending with
    | nil => exact parallel_dispatch ms target _
    | cons e pending => exact parallel_eval ms d _ _ _
  | callee args =>
    simp only [resumeFrame]
    split
    · split
      · exact parallel_evalArgs ms _ args
      · exact parallel_error ms d _
    · exact parallel_error ms d _
  | terminate => exact parallel_ok ms d rfl

/-- A machine has a dispatch to do whatever its messages are, and does the same in it as far as it
does not wait. -/
theorem next?_parallel (ms : List Value) {d₁ : Dispatch Desk}
    (next : m.next? cfg a.world d = some d₁) :
    ∃ d₂, m.next? cfg a.world (d.expect ms) = some d₂ ∧ Parallel ms d₁ d₂ := by
  unfold next? at next ⊢
  split at next
  · obtain rfl := Option.some.inj next
    refine ⟨_, rfl, ?_⟩
    simp only [evalStep]
    split
    · exact parallel_error ms d _
    · exact parallel_evalForm ms _
  · split at next
    · obtain rfl := Option.some.inj next
      exact ⟨_, rfl, parallel_resumeFrame ms _ _⟩
    · simp at next
  · simp at next

/-! ### Schedules and the run that has all messages -/

/-- Done or terminated. -/
def isOver (m : Machine) : Bool :=
  match m.control with
  | .done | .terminated _ => true
  | _ => false

end Machine

namespace Setting

open Machine (iterate advance? run_cases stuck_unique)

variable {cfg : Machine.Config} {a : Answers} {m : Machine} {ms : List Value} {x y : Setting}

/-- Where the machine stands if all that is still to come has come already: a message that it waits
for has been taken. That it is done does not show there. -/
def ahead (x : Setting) : Machine × Desk :=
  match x.machine.control, x.coming with
  | .waiting, msg :: rest =>
    ({ x.machine with control := .returning, val := msg }, x.desk.expect rest)
  | .done, coming => ({ x.machine with control := .returning }, x.desk.expect coming)
  | _, coming => (x.machine, x.desk.expect coming)

/-- The setting lies on the run of `m` with all of `ms` in its inbox. -/
structure OnTrack (cfg : Machine.Config) (a : Answers) (m : Machine) (ms : List Value)
    (x : Setting) : Prop where
  reached : ∃ n, iterate cfg a.world n (m, { inbox := ms }) = some x.ahead
  loaded : x.machine.control ≠ .idle
  parked : x.machine.control = .waiting → x.desk.inbox = []
  finished : x.machine.control = .done → x.machine.stack.pop? = none

theorem ahead_of_busy (busy : x.machine.isBusy) :
    x.ahead = (x.machine, x.desk.expect x.coming) := by
  unfold Machine.isBusy at busy
  unfold ahead
  split at busy <;> simp_all

theorem onTrack_of_busy {n : Nat}
    (reached : iterate cfg a.world n (m, { inbox := ms }) =
      some (x.machine, x.desk.expect x.coming))
    (busy : x.machine.isBusy) : OnTrack cfg a m ms x := by
  refine ⟨⟨n, by rw [ahead_of_busy busy]; exact reached⟩, ?_, ?_, ?_⟩ <;>
  · intro control
    simp [Machine.isBusy, control] at busy

theorem busy_of_next {d : Desk} {dispatch : Dispatch Desk}
    (next : m.next? cfg a.world d = some dispatch) : m.isBusy := by
  unfold Machine.next? at next
  unfold Machine.isBusy
  split at next <;> simp_all

/-- A dispatch takes the setting one step further on its track. -/
theorem OnTrack.dispatch (track : OnTrack cfg a m ms x) {d : Dispatch Desk}
    (next : x.machine.next? cfg a.world x.desk = some d) :
    OnTrack cfg a m ms ⟨x.machine.after d, d.state, x.coming⟩ := by
  obtain ⟨n, reached⟩ := track.reached
  rw [ahead_of_busy (busy_of_next next)] at reached
  obtain ⟨d₂, next₂, parallel⟩ := Machine.next?_parallel x.coming next
  have further : iterate cfg a.world (n + 1) (m, { inbox := ms }) = some (x.machine.land d₂) := by
    rw [Machine.iterate_add, reached, Option.bind_some, Machine.iterate_one, advance?, next₂,
      Option.map_some]
  rcases parallel with ⟨rfl, busy⟩ | ⟨m', waits, control, inbox, answer⟩
  · refine onTrack_of_busy further ?_
    cases result : d.machine with
    | error f => simp [Machine.after, result, Machine.fail, Machine.isBusy]
    | ok m' => simpa [Machine.after, result, Machine.isBusy] using busy m' result
  · have parked : (x.machine.after d).control = .waiting := by
      simp [Machine.after, waits, control]
    refine ⟨⟨n + 1, further.trans ?_⟩, by simp [parked], fun _ => inbox, by simp [parked]⟩
    cases coming : x.coming with
    | nil =>
      rw [coming] at answer
      simp only at answer
      simp only [ahead, parked, Desk.expect_nil, Machine.land, answer]
    | cons msg rest =>
      rw [coming] at answer
      simp only at answer
      simp only [ahead, Machine.land, answer, Machine.after, waits, control]

theorem OnTrack.iterate {n : Nat} {c : Machine × Desk} (track : OnTrack cfg a m ms x)
    (reached : iterate cfg a.world n (x.machine, x.desk) = some c) :
    OnTrack cfg a m ms ⟨c.1, c.2, x.coming⟩ := by
  obtain ⟨machine, desk, coming⟩ := x
  induction n generalizing machine desk with
  | zero =>
    obtain rfl := Option.some.inj reached
    exact track
  | succ n ih =>
    obtain ⟨c₁, first, rest⟩ := Option.bind_eq_some_iff.mp reached
    obtain ⟨d, next, rfl⟩ := Option.map_eq_some_iff.mp first
    exact ih (machine.after d) d.state (track.dispatch next) rest

/-- Where no dispatch is left the machine only takes note of it. -/
theorem OnTrack.stop {c : Machine × Desk} {coming : List Value}
    (track : OnTrack cfg a m ms ⟨c.1, c.2, coming⟩) (stuck : advance? cfg a.world c = none) :
    OnTrack cfg a m ms ⟨(Machine.stop c).machine, (Machine.stop c).state, coming⟩ := by
  have last := Machine.advance?_eq_none.mp stuck
  unfold Machine.stop Machine.halted?
  cases control : c.1.control with
  | idle => exact absurd control track.loaded
  | waiting | done | terminated => exact track
  | eval e => simp [Machine.next?, control] at last
  | returning =>
    have empty : c.1.stack.pop? = none := by
      cases pop : c.1.stack.pop? with
      | none => rfl
      | some top => simp [Machine.next?, control, pop] at last
    have same : { c.1 with control := .returning } = c.1 := by rw [← control]
    obtain ⟨n, reached⟩ := track.reached
    rw [ahead_of_busy (by simp [Machine.isBusy, control])] at reached
    refine ⟨⟨n, reached.trans ?_⟩, nofun, nofun, fun _ => empty⟩
    simp only [ahead, same]

theorem OnTrack.run (track : OnTrack cfg a m ms x) (budget : Nat) :
    OnTrack cfg a m ms (x.move cfg a (.run budget)) := by
  obtain ⟨n, c, reached, outcome⟩ := run_cases cfg a.world budget x.machine x.desk
  have there := track.iterate reached
  simp only [move]
  rcases outcome with ⟨same, -, -⟩ | ⟨same, stuck⟩
  · rw [same]
    exact there
  · rw [same]
    exact there.stop stuck

theorem OnTrack.deliver (track : OnTrack cfg a m ms x) :
    OnTrack cfg a m ms (x.move cfg a .deliver) := by
  obtain ⟨machine, desk, coming⟩ := x
  cases coming with
  | nil => exact track
  | cons msg rest =>
    obtain ⟨n, reached⟩ := track.reached
    cases control : machine.control with
    | waiting =>
      simp only [move, Machine.resume, control]
      refine onTrack_of_busy (n := n) ?_ rfl
      simpa only [ahead, control] using reached
    | idle => exact absurd control track.loaded
    | eval | returning | terminated | done =>
      simp only [move, Machine.resume, control]
      refine ⟨⟨n, reached.trans ?_⟩, by simp [control], by simp [control], track.finished⟩
      simp [ahead, control, Desk.expect]

theorem OnTrack.follow (track : OnTrack cfg a m ms x) (moves : List Move) :
    OnTrack cfg a m ms (x.follow cfg a moves) := by
  induction moves generalizing x with
  | nil => exact track
  | cons move rest ih =>
    cases move with
    | run budget => exact ih (track.run budget)
    | deliver => exact ih track.deliver

/-- A setting whose machine is over lies at the end of its track. -/
theorem OnTrack.stuck (track : OnTrack cfg a m ms x) (ended : x.machine.isOver) :
    advance? cfg a.world x.ahead = none := by
  rw [Machine.advance?_eq_none]
  unfold Machine.isOver at ended
  split at ended
  · rename_i control
    simp [ahead, control, Machine.next?, track.finished control]
  · rename_i control
    simp [ahead, control, Machine.next?]
  · simp at ended

theorem same_of_ahead (ended₁ : x.machine.isOver) (ended₂ : y.machine.isOver)
    (same : x.ahead = y.ahead) :
    x.machine = y.machine ∧ x.desk.calls = y.desk.calls ∧ x.desk.printed = y.desk.printed := by
  obtain ⟨⟨control₁, env₁, val₁, stack₁, supply₁, reductions₁⟩, desk₁, coming₁⟩ := x
  obtain ⟨⟨control₂, env₂, val₂, stack₂, supply₂, reductions₂⟩, desk₂, coming₂⟩ := y
  cases control₁ <;> cases control₂ <;> simp_all [Machine.isOver, ahead, Desk.expect]

/-- All schedules of the same messages that come to an end come to the same one. -/
theorem follow_unique (loaded : m.isBusy) (moves₁ moves₂ : List Move)
    (ended₁ : (follow cfg a moves₁ ⟨m, {}, ms⟩).machine.isOver)
    (ended₂ : (follow cfg a moves₂ ⟨m, {}, ms⟩).machine.isOver) :
    (follow cfg a moves₁ ⟨m, {}, ms⟩).ahead = (follow cfg a moves₂ ⟨m, {}, ms⟩).ahead := by
  have start : OnTrack cfg a m ms ⟨m, {}, ms⟩ := onTrack_of_busy (n := 0) rfl loaded
  have track₁ := start.follow moves₁
  have track₂ := start.follow moves₂
  obtain ⟨n₁, reached₁⟩ := track₁.reached
  obtain ⟨n₂, reached₂⟩ := track₂.reached
  exact stuck_unique reached₁ (track₁.stuck ended₁) reached₂ (track₂.stuck ended₂)

end Setting

theorem Machine.load_busy (m : Machine) (exprs : List Value) (env : Env) :
    (m.load exprs env).isBusy := by
  unfold Machine.load
  split <;> rfl

/-- Neither where a run is cut nor when messages come can be told from what a process does. A run that
yields used up what the counter of reductions went up by, and continued with a second budget it is
one run with both. Schedules of the same messages that come to an end leave the same machine, calls
and output. -/
theorem slices_and_delivery_do_not_show :
    (∀ {σ : Type} (cfg : Machine.Config) (world : World σ) (m : Machine) (s : σ) (b₁ : Int64)
        (b₂ : Nat),
      let p := m.run cfg world b₁.toNatClampNeg s
      p.status = .yielded →
        p.machine.run cfg world b₂ p.state =
          m.run cfg world ((p.machine.reductions - m.reductions).toNat + b₂) s) ∧
    (∀ (cfg : Machine.Config) (a : Answers) (m : Machine) (exprs : List Value) (env : Env)
        (ms : List Value) (moves₁ moves₂ : List Move),
      let start : Setting := ⟨m.load exprs env, {}, ms⟩
      let x := start.follow cfg a moves₁
      let y := start.follow cfg a moves₂
      x.machine.isOver → y.machine.isOver →
        x.machine = y.machine ∧ x.desk.calls = y.desk.calls ∧
          x.desk.printed = y.desk.printed) := by
  constructor
  · intro σ cfg world m s b₁ b₂ p yielded
    exact Machine.run_then_run b₁ b₂ yielded
  · intro cfg a m exprs env ms moves₁ moves₂ start x y ended₁ ended₂
    have same := Setting.follow_unique (m.load_busy exprs env) moves₁ moves₂ ended₁ ended₂
    exact Setting.same_of_ahead ended₁ ended₂ same

/-- A program that waits twice. Its first message is there before it runs in one schedule and comes
while it waits in the other; with both messages there, the run is cut after its first dispatch. -/
theorem slices_and_delivery_do_not_show_to_waiting :
    let cfg : Machine.Config := { table := [] }
    let wait : Value := .list [.sym (ascii "wait")]
    let m := ({} : Machine).load [wait, wait] []
    let a : Answers :=
      ⟨.issued 1, fun _ _ _ => none, fun _ _ => none, fun _ _ _ => .ok (.issued 2)⟩
    let p := m.run cfg a.world 1 { inbox := [.int 7, .int 8] }
    let start : Setting := ⟨m, {}, [.int 7, .int 8]⟩
    let early := start.follow cfg a [.deliver, .run 1, .deliver, .run 1, .run 5]
    let late := start.follow cfg a [.run 9, .deliver, .run 2, .deliver, .run 9]
    (p.status = .yielded ∧ p.machine.run cfg a.world 4 p.state =
      m.run cfg a.world ((p.machine.reductions - m.reductions).toNat + 4)
        { inbox := [.int 7, .int 8] }) ∧
    (early.machine.isOver ∧ late.machine.isOver ∧ early.machine = late.machine) := by
  intro cfg wait m a p start early late
  have yielded : p.status = .yielded := by decide +kernel
  have ended₁ : early.machine.isOver := by decide +kernel
  have ended₂ : late.machine.isOver := by decide +kernel
  have ⟨cut, timed⟩ := slices_and_delivery_do_not_show
  have ⟨same, _⟩ := timed cfg a {} [wait, wait] [] [.int 7, .int 8] _ _ ended₁ ended₂
  exact ⟨⟨yielded, cut cfg a.world m _ 1 4 yielded⟩, ended₁, ended₂, same⟩

end ProcLisp
