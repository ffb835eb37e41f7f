import ProcLisp.Proofs.Shell.Lines

/-!
# One evaluation at a time

Keys and results reach a prompt in any order. It starts an evaluation only when none is outstanding,
from the environment that the last successful one left, and its history holds the programs that were
submitted.
-/

namespace ProcLisp.Shell.Repl

open Reader Text

/-- An event, or a key that is not among those of the events. Such a key may do anything to the line,
and does nothing else. -/
inductive Message where
  | event (e : Event)
  | edit (line : LineEditor)

def Message.result? : Message → Option Result
  | .event (.result res) => some res
  | _ => none

theorem Message.eq_of_result {m : Message} {res : Result} (told : m.result? = some res) :
    m = .event (.result res) := by
  cases m with
  | edit => cases told
  | event e =>
    cases e with
    | typed | key => cases told
    | result => rw [Option.some.inj told]

def receive (r : Repl) : Message → Repl × List Action
  | .event e => r.update e
  | .edit line => ({ r with line }, [])

/-- The evaluations that a message starts. -/
def startedBy (r : Repl) (m : Message) : List (List Value × Env) :=
  (r.receive m).2.filterMap Action.evaluation?

/-- The input that a message submits. Nothing is submitted while an evaluation runs. -/
def submittedBy (r : Repl) : Message → List (List Char)
  | .event (.key .enter) => if r.running then [] else [r.source]
  | _ => []

/-- Neither blank nor a command, and not incomplete. -/
def isEntry (src : List Char) : Bool :=
  decide (src ∉ [] :: commands) && match parse (utf8 src) with
    | .ok _ => true
    | .error e => !e.incomplete

/-! ### What one message comes to -/

section Moves

variable {r next : Repl} {m : Message}

/-- A message leaves all but the line and what is pending as it is, puts an input into the history that
cannot be read, starts an evaluation, or settles one. -/
inductive Move (r : Repl) (m : Message) (next : Repl) : List (List Value × Env) → Prop
  | quiet (running : next.running = r.running) (env : next.env = r.env)
      (history : next.history = r.history)
      (place : r.place ≤ r.history.length → next.place ≤ r.history.length)
      (unsettled : m.result? = none) (skipped : ∀ src ∈ submittedBy r m, isEntry src = false) :
      Move r m next []
  | refused {src : List Char} {e : ParseError} (idle : r.running = false)
      (submitted : submittedBy r m = [src]) (entry : isEntry src)
      (failed : parse (utf8 src) = .error e) (after : next = { r.remember src with line := {} })
      (unsettled : m.result? = none) : Move r m next []
  | started {src : List Char} {exprs : List Value} (idle : r.running = false)
      (submitted : submittedBy r m = [src]) (entry : isEntry src)
      (read : parse (utf8 src) = .ok exprs)
      (after : next = { r.remember src with line := {}, running := true })
      (unsettled : m.result? = none) : Move r m next [(exprs, r.env)]
  | settled {res : Result} (told : m.result? = some res) (after : next = (r.settle res).1)
      (none : submittedBy r m = []) : Move r m next []

/-- What changes only the line, what is pending and whether the prompt is quitting. -/
theorem Move.of_same (none : m.result? = none) (unsubmitted : submittedBy r m = [])
    (running : next.running = r.running) (env : next.env = r.env)
    (history : next.history = r.history) (place : next.place = r.place) : Move r m next [] := by
  refine .quiet running env history (fun inside => place ▸ inside) none ?_
  rw [unsubmitted]
  exact nofun

theorem Move.showEntry (place : Nat) (none : m.result? = none) (unsubmitted : submittedBy r m = []) :
    Move r m (r.showEntry place) [] := by
  unfold Repl.showEntry
  split
  · exact .of_same none unsubmitted rfl rfl rfl rfl
  have skipped : ∀ src ∈ submittedBy r m, isEntry src = false := by
    rw [unsubmitted]
    exact nofun
  split
  · rename_i entry shown
    have inside := (List.getElem?_eq_some_iff.mp shown).1
    exact .quiet rfl rfl rfl (fun _ => inside.le) none skipped
  · exact .quiet rfl rfl rfl (fun _ => Nat.le_refl _) none skipped

theorem move_submit (idle : r.running = false) :
    Move r (.event (.key .enter)) r.submit.1 (r.submit.2.filterMap Action.evaluation?) := by
  have submitted : submittedBy r (.event (.key .enter)) = [r.source] := by simp [submittedBy, idle]
  have skip {next : Repl} (skipped : isEntry r.source = false) (running : next.running = r.running)
      (env : next.env = r.env) (history : next.history = r.history) (place : next.place = r.place) :
      Move r (.event (.key .enter)) next [] := by
    refine .quiet running env history (fun inside => place ▸ inside) rfl ?_
    rw [submitted]
    exact List.forall_mem_singleton.mpr skipped
  unfold Repl.submit
  dsimp only
  split
  · rename_i blank
    exact skip (by simp [isEntry, List.isEmpty_iff.mp blank]) rfl rfl rfl rfl
  rename_i filled
  split
  · rename_i leaves
    exact skip (by rcases leaves with same | same <;> simp [isEntry, commands, same]) rfl rfl rfl rfl
  rename_i stays
  split
  · rename_i lists
    exact skip (by simp [isEntry, commands, lists]) rfl rfl rfl rfl
  rename_i other
  have program : r.source ∉ [] :: commands := by
    simp only [commands, List.mem_cons, List.not_mem_nil, or_false, not_or]
    exact ⟨fun blank => filled (List.isEmpty_iff.mpr blank), fun exit => stays (.inl exit),
      fun quit => stays (.inr quit), other⟩
  split
  · rename_i exprs read
    exact .started idle submitted (by simp [isEntry, program, read]) read rfl rfl
  · rename_i e failed
    split
    · rename_i incomplete
      exact skip (by simp [isEntry, failed, incomplete]) rfl rfl rfl rfl
    · rename_i complete
      exact .refused idle submitted (by simp [isEntry, program, failed, complete]) failed rfl rfl

theorem move_receive (r : Repl) (m : Message) : Move r m (r.receive m).1 (r.startedBy m) := by
  cases m with
  | edit line => exact .of_same rfl rfl rfl rfl rfl rfl
  | event e =>
    cases e with
    | typed text => exact .of_same rfl rfl rfl rfl rfl rfl
    | result res =>
      have none : startedBy r (.event (.result res)) = [] := by cases res <;> rfl
      rw [none]
      exact .settled rfl rfl rfl
    | key k =>
      unfold startedBy receive update press
      cases k with
      | enter =>
        cases running : r.running with
        | false =>
          simp only [Bool.false_eq_true, if_false]
          exact move_submit running
        | true =>
          simp only [if_true]
          exact .of_same rfl (by simp [submittedBy, running]) rfl rfl rfl rfl
      | up => exact .showEntry _ rfl rfl
      | down => exact .showEntry _ rfl rfl
      | interrupt =>
        dsimp only
        split <;> exact .of_same rfl rfl rfl rfl rfl rfl
      | leave | left | right | home | last | backspace => exact .of_same rfl rfl rfl rfl rfl rfl

end Moves

/-! ### What all messages come to -/

/-- What is seen of each message, in order. -/
def observe {α : Type} (see : Repl → Message → List α) (r : Repl) : List Message → List α
  | [] => []
  | m :: messages => see r m ++ observe see (r.receive m).1 messages

/-- The prompt after messages that it got from the start. -/
def after (messages : List Message) : Repl := messages.foldl (fun r m => (r.receive m).1) {}

/-- The evaluations that were started. -/
def started (messages : List Message) : List (List Value × Env) := observe startedBy {} messages

/-- The inputs that were submitted. -/
def submitted (messages : List Message) : List (List Char) := observe submittedBy {} messages

/-- The program that an input is read as. -/
def program? (src : List Char) : Option (List Value) := (parse (utf8 src)).toOption

def results (messages : List Message) : List Result := messages.filterMap Message.result?

/-- The environment that the last success left; the empty one if there was none. -/
def lastEnv (results : List Result) : Env :=
  ((results.filterMap Except.toOption).getLast?.map Prod.snd).getD []

/-- Each result is that of an evaluation that was started before, and told once. -/
def Delivered (messages : List Message) : Prop :=
  ∀ first ∈ messages.inits, (results first).length ≤ (started first).length

instance (messages : List Message) : Decidable (Delivered messages) := List.decidableBAll _ _

section Runs

variable {messages : List Message} {m : Message}

theorem observe_concat {α : Type} (see : Repl → Message → List α) (r : Repl)
    (messages : List Message) (m : Message) :
    observe see r (messages ++ [m]) =
      observe see r messages ++ see (messages.foldl (fun r m => (r.receive m).1) r) m := by
  induction messages generalizing r with
  | nil => simp [observe]
  | cons first messages ih => simp [observe, ih, List.append_assoc]

theorem after_concat (messages : List Message) (m : Message) :
    after (messages ++ [m]) = ((after messages).receive m).1 := by
  simp [after]

theorem started_concat (messages : List Message) (m : Message) :
    started (messages ++ [m]) = started messages ++ (after messages).startedBy m :=
  observe_concat _ _ _ _

theorem submitted_concat (messages : List Message) (m : Message) :
    submitted (messages ++ [m]) = submitted messages ++ (after messages).submittedBy m :=
  observe_concat _ _ _ _

theorem results_concat (messages : List Message) (m : Message) :
    results (messages ++ [m]) = results messages ++ m.result?.toList := by
  cases told : m.result? <;> simp [results, told]

theorem lastEnv_concat (results : List Result) (res : Result) :
    lastEnv (results ++ [res]) = match res with
      | .ok (_, env) => env
      | .error _ => lastEnv results := by
  cases res <;> simp [lastEnv, Except.toOption]

theorem Delivered.of_append {first rest : List Message} (delivered : Delivered (first ++ rest)) :
    Delivered first := by
  intro part member
  refine delivered part ?_
  rw [List.mem_inits] at member ⊢
  exact member.trans (List.prefix_append _ _)

theorem Delivered.counts (delivered : Delivered messages) :
    (results messages).length ≤ (started messages).length :=
  delivered messages ((List.mem_inits _ _).mpr List.prefix_rfl)

end Runs

/-! ### What is kept -/

/-- A prompt after these evaluations were started, these results told and these inputs submitted. -/
structure Threaded (r : Repl) (started : List (List Value × Env)) (results : List Result)
    (submitted : List (List Char)) : Prop where
  outstanding : started.length = results.length + if r.running then 1 else 0
  env : r.env = lastEnv results
  history : r.history = submitted.filter isEntry
  programs : started.map Prod.fst = r.history.filterMap program?
  place : r.place ≤ r.history.length

section Keeping

variable {r next : Repl} {m : Message} {es es' : List (List Value × Env)} {rs : List Result}
  {inputs : List (List Char)} {messages : List Message}

theorem Threaded.move (threaded : Threaded r es rs inputs) (move : Move r m next es')
    (delivered : (rs ++ m.result?.toList).length ≤ (es ++ es').length) :
    Threaded next (es ++ es') (rs ++ m.result?.toList) (inputs ++ submittedBy r m) := by
  obtain ⟨outstanding, env, history, programs, place⟩ := threaded
  cases move with
  | quiet running' env' history' place' unsettled skipped =>
    have none : (submittedBy r m).filter isEntry = [] :=
      List.filter_eq_nil_iff.mpr fun src member => by simp [skipped src member]
    rw [unsettled, Option.toList_none, List.append_nil, List.append_nil]
    refine ⟨running' ▸ outstanding, env'.trans env, ?_, history' ▸ programs, history' ▸ place' place⟩
    rw [history', history, List.filter_append, none, List.append_nil]
  | refused idle submitted entry failed after unsettled =>
    rw [unsettled, submitted, after, Option.toList_none, List.append_nil, List.append_nil]
    refine ⟨outstanding, env, ?_, ?_, ?_⟩
    · simp [remember, history, List.filter_append, entry]
    · simp [remember, programs, program?, failed, Except.toOption]
    · simp [remember]
  | started idle submitted entry read after unsettled =>
    rw [unsettled, submitted, after, Option.toList_none, List.append_nil]
    refine ⟨?_, env, ?_, ?_, ?_⟩
    · simp [outstanding, idle]
    · simp [remember, history, List.filter_append, entry]
    · simp [remember, programs, program?, read, Except.toOption]
    · simp [remember]
  | @settled res told after none =>
    rw [told] at delivered ⊢
    -- a result that is told now was not told before, so an evaluation is outstanding
    have running : r.running = true := by
      by_contra idle
      simp only [outstanding, idle, List.length_append, Option.toList_some, List.length_singleton,
        List.append_nil, if_false] at delivered
      omega
    rw [none, after, List.append_nil, List.append_nil, Option.toList_some]
    refine ⟨?_, ?_, ?_, ?_, ?_⟩
    · cases res <;> simp [outstanding, running, settle]
    · rw [lastEnv_concat, ← env]
      cases res <;> rfl
    · cases res <;> exact history
    · cases res <;> exact programs
    · cases res <;> exact place

theorem threaded_after (delivered : Delivered messages) :
    Threaded (after messages) (started messages) (results messages) (submitted messages) := by
  induction messages using List.reverseRecOn with
  | nil => exact ⟨rfl, rfl, rfl, rfl, Nat.le_refl _⟩
  | append_singleton messages m ih =>
    have counts := delivered.counts
    rw [started_concat, results_concat] at counts
    rw [after_concat, started_concat, results_concat, submitted_concat]
    exact (ih delivered.of_append).move ((after messages).move_receive m) counts

/-- Whatever reaches a prompt, one evaluation at most is outstanding at any time. It was started by an
input that can be read, from the environment that the last success before it left. Only a success
changes the environment. Only inputs that were submitted go into the history, and those that can be
read are evaluated once, in order. -/
theorem one_evaluation_at_a_time (delivered : Delivered messages) :
    ((started messages).length =
      (results messages).length + if (after messages).running then 1 else 0) ∧
      (after messages).env = lastEnv (results messages) ∧
      (after messages).history = (submitted messages).filter isEntry ∧
      (started messages).map Prod.fst = (after messages).history.filterMap program? ∧
      (after messages).place ≤ (after messages).history.length ∧
      ∀ first m rest, first ++ m :: rest = messages →
        (∀ e ∈ (after first).startedBy m,
          (started first).length = (results first).length ∧ e.2 = lastEnv (results first) ∧
            ∃ src, (after first).submittedBy m = [src] ∧ isEntry src ∧
              parse (utf8 src) = .ok e.1) ∧
        ((∀ v env, m ≠ .event (.result (.ok (v, env)))) →
          (after (first ++ [m])).env = (after first).env) := by
  obtain ⟨outstanding, env, history, programs, place⟩ := threaded_after delivered
  refine ⟨outstanding, env, history, programs, place, ?_⟩
  rintro first m rest rfl
  obtain ⟨before, left, -⟩ := threaded_after delivered.of_append
  have move := (after first).move_receive m
  rw [after_concat]
  generalize (after first).startedBy m = es at move
  cases move with
  | quiet _ same => exact ⟨nofun, fun _ => same⟩
  | refused _ _ _ _ next => exact ⟨nofun, fun _ => by rw [next]; rfl⟩
  | @started src exprs idle submitted entry read next =>
    refine ⟨List.forall_mem_singleton.mpr ⟨?_, left, src, submitted, entry, read⟩,
      fun _ => by rw [next]; rfl⟩
    simpa [idle] using before
  | @settled res told next =>
    obtain rfl := Message.eq_of_result told
    refine ⟨nofun, fun failure => ?_⟩
    rw [next]
    cases res with
    | error c => rfl
    | ok success => exact absurd rfl (failure success.1 success.2)

/-- A definition, a line that is dropped while it is evaluated, a program over two lines that fails, a
command and a text that cannot be read. -/
theorem one_evaluation_at_a_time_in_session :
    let line (text : String) : Message := .event (.typed text.toList)
    let press (k : Key) : Message := .event (.key k)
    let x : Env := [(ascii "x", .int 1)]
    let messages := [line "(def x 1)", press .enter, line "x", press .enter, press .interrupt,
      .event (.result (.ok (.int 1, x))), line "(+ x", press .enter, line "'a)", press .enter,
      .event (.result (.error .timedOut)), press .up, .edit (typed ":ps"), press .enter, line ")",
      press .enter, press .down]
    Delivered messages ∧ (after messages).env = lastEnv (results messages) ∧
      (after messages).history = (submitted messages).filter isEntry ∧
      (submitted messages).filter isEntry = ["(def x 1)".toList, "(+ x\n'a)".toList, ")".toList] ∧
      (∀ e ∈ (after (messages.take 9)).startedBy (press .enter), e.2 = x) := by
  intro line press x messages
  have delivered : Delivered messages := by decide
  obtain ⟨-, env, history, -, -, each⟩ := one_evaluation_at_a_time delivered
  refine ⟨delivered, env, history, by decide, fun e member => ?_⟩
  exact ((each (messages.take 9) (press .enter) (messages.drop 10) rfl).1 e member).2.1

end Keeping

end ProcLisp.Shell.Repl
