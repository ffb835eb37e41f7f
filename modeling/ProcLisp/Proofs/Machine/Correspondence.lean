import ProcLisp.Proofs.Machine.Exact
import ProcLisp.Proofs.Machine.Shapes

/-!
# The machine computes what the recursion says

The bounded recursion comes to what the one without a bound does, unless it overflows, and at a
small depth only a small bound makes it overflow. So running a program on a machine and evaluating
it by recursion come to the same end.
-/

namespace ProcLisp

namespace Bounded

open Machine (Config)
open Recursive (Eval)
open Recursive.Eval

/-- What the bound may do to an evaluation: make it overflow, if there is no room for so many
frames. -/
def Cut (cfg : Config) (room : Nat) (stopped : Option Failure) : Prop :=
  stopped = some (.stackOverflow cfg.maxFrames) ∧ cfg.maxFrames < room

section Erasure

variable {cfg : Config} {n room : Nat} {base : Footing} {ev : Footing → Value → Eval Value}
  {free : Value → Eval Value}

theorem erased_enclosed {α : Type} {x : Footing → Eval α} {y : Eval α}
    (inner : ∀ base' : Footing, base'.depth ≤ base.depth + 1 → y.Refines (Cut cfg room) (x base'))
    (enough : base.depth < room) :
    (inScope y).Refines (Cut cfg room) (enclosed cfg base x) := by
  unfold enclosed
  split
  · exact refines_inScope (inner base (by omega))
  split
  · exact refines_inScope (inner _ (Nat.le_refl _))
  · exact fun env amb => .inr (.inr ⟨_, amb, rfl, rfl, by omega⟩)

variable (erased : ∀ base e, base.depth + 2 * n ≤ room →
  (free e).Refines (Cut cfg room) (ev base e))

include erased

theorem erased_under (enough : base.depth + 1 + 2 * n ≤ room) (e : Value) :
    (free e).Refines (Cut cfg room) (under cfg ev base e) := by
  unfold under
  split
  · exact erased _ e enough
  · exact fun env amb => .inr (.inr ⟨_, amb, rfl, rfl, by omega⟩)

theorem erased_sequence (enough : base.depth + 1 + 2 * n ≤ room) (first : Value)
    (rest : List Value) :
    (Recursive.sequence free first rest).Refines (Cut cfg room)
      (sequence cfg ev base first rest) := by
  induction rest generalizing first with
  | nil => exact erased base first (by omega)
  | cons next rest ih => exact refines_bind (erased_under erased enough first) fun _ => ih next

theorem erased_clauses (enough : base.depth + 1 + 2 * n ≤ room) (cs : List (Value × Value)) :
    (Recursive.clauses free cs).Refines (Cut cfg room) (clauses cfg ev base cs) := by
  induction cs with
  | nil => exact refines_refl _
  | cons c rest ih =>
    refine refines_bind (erased_under erased enough c.1) fun v => ?_
    split
    · exact erased base c.2 (by omega)
    · exact ih

theorem erased_apply (enough : base.depth + 1 + 2 * n ≤ room) (f : Value) (args : List Value) :
    (Recursive.apply free f args).Refines (Cut cfg room) (apply cfg ev base f args) := by
  cases f with
  | lambda tag params body captured =>
    simp only [apply, Recursive.apply]
    split
    · refine refines_bind (refines_arguments (erased_under erased enough) args) fun vs => ?_
      refine erased_enclosed (fun base' lower => ?_) (by omega)
      exact refines_bind (refines_refl _) fun _ => erased base' body (by omega)
    · exact refines_refl _
  | _ => exact refines_refl _

theorem erased_form (enough : base.depth + 2 * (n + 1) ≤ room) (f : Form) :
    (Recursive.form free cfg.table f).Refines (Cut cfg room) (form cfg ev base f) := by
  have below : base.depth + 1 + 2 * n ≤ room := by omega
  cases f with
  | value _ | lookup _ | lambda _ _ => exact refines_refl _
  | branch test yes no =>
    refine refines_bind (erased_under erased below test) fun v => ?_
    split
    · exact erased base yes (by omega)
    · exact erased base no (by omega)
  | sequence first rest => exact erased_sequence erased below first rest
  | define name expr =>
    exact refines_bind (erased_under erased below expr) fun _ => refines_refl _
  | letIn bs first rest =>
    rw [form]
    refine erased_enclosed (fun base' lower => ?_) (by omega)
    have above : base'.depth + 1 + 2 * n ≤ room := by omega
    exact refines_bind (refines_bindings (erased_under erased above) bs) fun _ =>
      erased_sequence erased above first rest
  | cond cs => exact erased_clauses erased below cs
  | list args | primitive _ args | syscall _ args =>
    exact refines_bind (refines_arguments (erased_under erased below) args) fun _ =>
      refines_refl _
  | apply head args =>
    exact refines_bind (erased_under erased below head) fun f => erased_apply erased below f args

end Erasure

/-- Without the bound an evaluation comes to the same, unless it overflowed. -/
theorem evaluate_erased {cfg : Config} {n room : Nat} (base : Footing) (e : Value)
    (enough : base.depth + 2 * n ≤ room) :
    (Recursive.evaluate cfg.table n e).Refines (Cut cfg room) (evaluate cfg n base e) := by
  induction n generalizing base e with
  | zero => exact refines_refl _
  | succ n ih =>
    simp only [evaluate, Recursive.evaluate]
    cases Form.read cfg.table e with
    | error f => exact refines_refl _
    | ok form => exact erased_form ih enough form

theorem program_erased (cfg : Config) (n : Nat) (exprs : List Value) :
    (Recursive.program cfg.table n exprs).Refines (Cut cfg (2 * n + 1)) (program cfg n exprs) := by
  have erased : ∀ base e, base.depth + 2 * n ≤ 2 * n + 1 →
      (Recursive.evaluate cfg.table n e).Refines (Cut cfg (2 * n + 1)) (evaluate cfg n base e) :=
    evaluate_erased
  rcases exprs with _ | ⟨e, _ | ⟨next, others⟩⟩
  · exact refines_refl _
  · exact erased ground e (by simp [ground])
  · refine refines_bind (erased ⟨1, false⟩ e (by simp only; omega)) fun _ => ?_
    exact erased_sequence erased (by simp [ground]; omega) next others

end Bounded

namespace Machine

open Recursive (Ambient Eval)

/-! ### Programs -/

theorem follows_program (cfg : Config) (n : Nat) (exprs : List Value) (env : Env)
    (supply : Supply) :
    Follows cfg .empty n (2 * n + 1) (({ supply } : Machine).load exprs env, [])
      (Recursive.program cfg.table n exprs env ⟨supply, []⟩) := by
  have bounded := exact_program cfg n exprs env supply
  rcases Bounded.program_erased cfg n exprs env ⟨supply, []⟩ with
    same | ⟨-, none, -⟩ | ⟨f, amb, failed, overflow, bound⟩
  · rw [same]
    exact bounded.fewer (Nat.le_refl _) (Nat.zero_le _)
  · cases none
  · obtain rfl := Option.some.inj overflow
    rw [failed] at bounded
    rcases bounded with ⟨j, c, reached, failing⟩ | ⟨-, none⟩
    · exact .inr ⟨⟨j, c, reached, failing.control⟩, bound⟩
    · cases none

/-- The end of an evaluation at a point where nothing is left to do. -/
def conclude? (c : Machine × Transcript) : Option Evaluation :=
  ((stop c).machine.outcome? (stop c).status).map fun outcome =>
    { outcome, transcript := (stop c).state, supply := (stop c).machine.supply,
      reductions := (stop c).machine.reductions }

end Machine

open Machine Recursive

/-- The evaluation gives the answer of the recursion: the same value and environment or the same
failure, the same output, and lambdas with the same tags. -/
def Evaluation.Gives (ev : Evaluation) (r : Except Failure (Value × Env) × Ambient) : Prop :=
  ev.outcome = (match r.1 with
    | .ok (v, env) => .value v env
    | .error f => .failed f) ∧
  ev.transcript = r.2.transcript ∧ ev.supply = r.2.supply

/-- The bound on the stack cut the evaluation short. -/
def Evaluation.Overflowed (ev : Evaluation) (cfg : Config) : Prop :=
  ev.outcome = .failed (.stackOverflow cfg.maxFrames)

namespace Machine

variable {cfg : Config} {c : Machine × Transcript}

theorem Returning.stuck (cfg : Config) {v : Value} {env : Env} {amb : Ambient}
    (h : Returning v env .empty amb c) :
    advance? cfg .solitary c = none ∧
      ∃ ev, conclude? c = some ev ∧ ev.Gives (.ok (v, env), amb) := by
  obtain ⟨m, t⟩ := c
  obtain ⟨control, val, env_eq, stack, same⟩ := h
  simp only at control val stack
  have env_eq : m.env = env := env_eq.resolve_right (by simp [Stack.Covered, Stack.empty])
  have halted : m.halted? = none := by simp [halted?, control]
  refine ⟨by simp [advance?, next?, control, stack, Stack.empty, Stack.pop?], ?_⟩
  simp only [conclude?, stop, halted, outcome?, Option.map_some]
  refine ⟨_, rfl, by simp [val, env_eq], ?_, ?_⟩
  · rw [← same]; rfl
  · rw [← same]; rfl

theorem terminated_stuck (cfg : Config) {f : Failure}
    (control : c.1.control = .terminated (.failed f)) :
    advance? cfg .solitary c = none ∧
      ∃ ev, conclude? c = some ev ∧ ev.Gives (.error f, ambient c) := by
  have halted : c.1.halted? = some (.terminated, c.1) := by simp [halted?, control]
  refine ⟨by simp [advance?, next?, control], ?_⟩
  simp only [conclude?, stop, halted, outcome?, ending?, control, Option.bind_some,
    Ending.failure?, Option.map_some]
  exact ⟨_, rfl, rfl, rfl, rfl⟩

/-- Where the machine follows an answer, it comes to a stop that gives it, or overflows. -/
theorem Follows.settles {n room : Nat} {r : Except Failure (Value × Env) × Ambient}
    (follows : Follows cfg .empty n room c (some r)) :
    ∃ j c' ev, iterate cfg .solitary j c = some c' ∧ advance? cfg .solitary c' = none ∧
      conclude? c' = some ev ∧ (ev.Gives r ∨ ev.Overflowed cfg ∧ cfg.maxFrames < room) := by
  obtain ⟨answer, amb⟩ := r
  rcases follows with reached | ⟨⟨j, c', reached, overflowing⟩, bound⟩
  · cases answer with
    | ok pair =>
      obtain ⟨j, c', reached, returning⟩ := reached
      have ⟨stuck, ev, concluded, gives⟩ := returning.stuck cfg
      exact ⟨j, c', ev, reached, stuck, concluded, .inl gives⟩
    | error f =>
      obtain ⟨j, c', reached, failing⟩ := reached
      have ⟨stuck, ev, concluded, gives⟩ := terminated_stuck cfg failing.control
      rw [failing.ambient] at gives
      exact ⟨j, c', ev, reached, stuck, concluded, .inl gives⟩
  · have ⟨stuck, ev, concluded, gives⟩ := terminated_stuck cfg overflowing
    exact ⟨j, c', ev, reached, stuck, concluded, .inr ⟨gives.1, bound⟩⟩

theorem evalProgram_of_stuck {exprs : List Value} {env : Env} {supply : Supply} {j : Nat}
    {ev : Evaluation}
    (reached : iterate cfg .solitary j (({ supply } : Machine).load exprs env, []) = some c)
    (stuck : advance? cfg .solitary c = none) (concluded : conclude? c = some ev) :
    ∃ rounds, evalProgram cfg rounds exprs env supply = some ev := by
  obtain ⟨rounds, same⟩ := complete_of_stuck reached stuck
  refine ⟨rounds, ?_⟩
  simp only [evalProgram, same]
  exact concluded

theorem stuck_of_evalProgram {exprs : List Value} {env : Env} {supply : Supply} {rounds : Nat}
    {ev : Evaluation} (ended : evalProgram cfg rounds exprs env supply = some ev) :
    ∃ j c, iterate cfg .solitary j (({ supply } : Machine).load exprs env, []) = some c ∧
      advance? cfg .solitary c = none ∧ conclude? c = some ev := by
  simp only [evalProgram] at ended
  have status : ((({ supply } : Machine).load exprs env).complete cfg .solitary rounds []).status ≠
      .yielded := by
    intro yielded
    simp [yielded, outcome?] at ended
  obtain ⟨j, c, reached, stuck, same⟩ := complete_stop status
  rw [same] at ended
  exact ⟨j, c, reached, stuck, ended⟩

end Machine

/-- The machine and the recursion agree on every program. What the machine ends with is an answer of
the recursion, unless the stack overflowed; and where the recursion answers the machine ends, with
that answer or with an overflow, which only a bound below twice the depth can bring about. Both take
an expression for the form whose shape it has, and fail on one that has none, for what is wrong with
it. -/
theorem evalProgram_agrees_with_recursion (cfg : Config) (exprs : List Value) (env : Env)
    (supply : Supply) :
    (∀ rounds ev, evalProgram cfg rounds exprs env supply = some ev →
      (∃ depth r, program cfg.table depth exprs env ⟨supply, []⟩ = some r ∧ ev.Gives r) ∨
        ev.Overflowed cfg) ∧
    (∀ depth r, program cfg.table depth exprs env ⟨supply, []⟩ = some r →
      ∃ rounds ev, evalProgram cfg rounds exprs env supply = some ev ∧
        (ev.Gives r ∨ ev.Overflowed cfg ∧ cfg.maxFrames ≤ 2 * depth)) ∧
    (∀ expr form, Form.read cfg.table expr = .ok form ↔ Form.Shape cfg.table expr form) ∧
    ∀ expr f, Form.read cfg.table expr = .error f → Form.Misshapen expr f := by
  refine ⟨?_, ?_, fun expr form => Form.read_eq_ok, fun expr f => Form.read_fault⟩
  · intro rounds ev ended
    obtain ⟨j, c, reached, stuck, concluded⟩ := stuck_of_evalProgram ended
    have follows := follows_program cfg (j + 1) exprs env supply
    -- at a depth beyond the number of dispatches the recursion must have an answer
    match answer : program cfg.table (j + 1) exprs env ⟨supply, []⟩ with
    | some r =>
      rw [answer] at follows
      obtain ⟨i, c', ev', reached', stuck', concluded', gives⟩ := follows.settles
      rw [stuck_unique reached stuck reached' stuck', concluded'] at concluded
      obtain rfl := Option.some.inj concluded
      exact gives.imp (fun gives => ⟨j + 1, r, answer, gives⟩) And.left
    | none =>
      rw [answer] at follows
      rcases follows with ⟨c', further⟩ | ⟨⟨i, c', reached', overflowing⟩, _⟩
      · have := (iterate_stuck reached stuck further).1
        omega
      · have ⟨stuck', ev', concluded', gives⟩ := terminated_stuck cfg overflowing
        rw [stuck_unique reached stuck reached' stuck', concluded'] at concluded
        obtain rfl := Option.some.inj concluded
        exact .inr gives.1
  · intro depth r answer
    have follows := follows_program cfg depth exprs env supply
    rw [answer] at follows
    obtain ⟨j, c, ev, reached, stuck, concluded, gives⟩ := follows.settles
    obtain ⟨rounds, ended⟩ := evalProgram_of_stuck reached stuck concluded
    exact ⟨rounds, ev, ended, gives.imp_right fun h => ⟨h.1, by omega⟩⟩

/-- Of two programs the first defines a function and calls it in a `let`, where the function makes a
syscall; the second fails at a primitive when its arguments are evaluated. -/
theorem evalProgram_agrees_on_call :
    let form (word : String) (args : List Value) : Value := .list (.sym (ascii word) :: args)
    let name (s : String) : Value := .sym (ascii s)
    let say : Syscall :=
      { name := ascii "say", arity := 1, run := fun args => ⟨ascii "!", .ok (.list args)⟩ }
    let cfg : Machine.Config := { table := [(ascii "say", say)] }
    let called : List Value := [
      form "def" [name "f", form "fn" [.list [name "x"], form "if" [name "x", form "say" [name "x"],
        .int 0]]],
      form "let" [.list [.list [name "y", .int 2]], form "cond" [form "f" [name "y"],
        form "list" [form "f" [name "y"], form "quote" [name "y"]]]]]
    let refused : List Value := [form "do" [form "def" [name "x", form "say" [.int 1]],
      form "send" [name "x", form "say" [.int 2]], form "say" [.int 3]]]
    (∃ env amb rounds ev,
      program cfg.table 8 called [] ⟨{}, []⟩ =
        some (.ok (.list [.list [.int 2], name "y"], env), amb) ∧
      amb.transcript = [ascii "!", ascii "!"] ∧ evalProgram cfg rounds called [] {} = some ev ∧
      ev.Gives (.ok (.list [.list [.int 2], name "y"], env), amb)) ∧
    ∃ amb rounds ev,
      program cfg.table 8 refused [] ⟨{}, []⟩ =
        some (.error (.notInProcess (ascii "send")), amb) ∧
      amb.transcript = [ascii "!", ascii "!"] ∧ evalProgram cfg rounds refused [] {} = some ev ∧
      ev.Gives (.error (.notInProcess (ascii "send")), amb) := by
  intro form name say cfg called refused
  have answers (exprs : List Value) {r} (answer : program cfg.table 8 exprs [] ⟨{}, []⟩ = some r) :
      ∃ rounds ev, evalProgram cfg rounds exprs [] {} = some ev ∧ ev.Gives r := by
    obtain ⟨rounds, ev, ended, gives | ⟨_, bound⟩⟩ :=
      (evalProgram_agrees_with_recursion cfg exprs [] {}).2.1 8 r answer
    · exact ⟨rounds, ev, ended, gives⟩
    · simp [cfg] at bound
  constructor
  · obtain ⟨rounds, ev, ended, gives⟩ := answers called (by rfl)
    exact ⟨_, _, rounds, ev, rfl, rfl, ended, gives⟩
  · obtain ⟨rounds, ev, ended, gives⟩ := answers refused (by rfl)
    exact ⟨_, rounds, ev, rfl, rfl, ended, gives⟩

end ProcLisp
