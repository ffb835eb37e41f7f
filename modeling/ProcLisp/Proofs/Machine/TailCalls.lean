import Mathlib.Logic.Relation
import ProcLisp.Proofs.Machine.Reachable

/-!
# Tail calls

A form evaluates its parts on frames of its own, until one is left that is evaluated in place of the
form. On top of a restore frame this needs no new one, so that calls in tail position leave the
stack as it was, over and over.
-/

namespace ProcLisp

open Machine (Config)
open Relation (ReflTransGen)

/-- The parts that may be evaluated in place of the form. -/
def Form.tails : Form → List Value
  | .branch _ yes no => [yes, no]
  | .sequence first rest | .letIn _ first rest => [(first :: rest).getLast (List.cons_ne_nil _ _)]
  | .cond clauses => clauses.map (·.2)
  | _ => []

/-- After parts with these values it is the turn of one that is evaluated in place of the form. -/
def Form.Decided : Form → List Value → Prop
  | .branch _ _ _, vs => vs.length = 1
  | .sequence _ rest, vs => vs.length = rest.length
  | .letIn bs _ rest, vs => vs.length = bs.length + rest.length
  | .cond _, vs => ∃ falses v, vs = falses ++ [v] ∧ (∀ x ∈ falses, x.truthy = false) ∧
      v.truthy = true
  | _, _ => False

/-- After parts with these values, the head and the arguments, a function is called. -/
def Form.Calls : Form → List Value → Prop
  | .apply _ args, vs => vs.length = args.length + 1
  | _, _ => False

namespace Machine

/-- A dispatch in some world, or a message to a machine that waits. -/
inductive Move (cfg : Config) : Machine → Machine → Prop where
  | dispatch {σ : Type} {world : World σ} {m : Machine} {s : σ} {d : Dispatch σ}
      (next : m.next? cfg world s = some d) : Move cfg m (m.after d)
  | resume {m next : Machine} {msg : Value} (resumed : m.resume msg = .ok next) : Move cfg m next

section Runs

variable (cfg : Config) (P : Machine → Prop)

/-- A run through machines with the property. -/
def Run : Machine → Machine → Prop := ReflTransGen fun a b => Move cfg a b ∧ P b

/-- The expression that `m` is to evaluate comes to `v`, on the stack of `m`. -/
structure Evaluates (m : Machine) (v : Value) (m' : Machine) : Prop where
  pending : ∃ e, m.control = .eval e
  run : Run cfg P m m'
  returning : m'.control = .returning
  val : m'.val = v
  stack : m'.stack = m.stack

/-- Evaluations one after another, each handed to the frame that waits for it. -/
inductive Parts : List Value → Machine → Machine → Prop where
  | nil (m : Machine) : Parts [] m m
  | cons {v : Value} {vs : List Value} {m m₁ m₂ m' : Machine} (first : Evaluates cfg P m v m₁)
      (move : Move cfg m₁ m₂) (within : P m₂) (rest : Parts vs m₂ m') : Parts (v :: vs) m m'

/-- The evaluation of a form up to the point after parts with the values that `upTo` says. -/
inductive Stage (upTo : Form → List Value → Prop) (m m' : Machine) : Prop where
  | intro {e : Value} {form : Form} {vs : List Value} {m₁ : Machine} (control : m.control = .eval e)
      (read : Form.read cfg.table e = .ok form) (move : Move cfg m m₁) (within : P m₁)
      (parts : Parts cfg P vs m₁ m') (reached : upTo form vs)

/-- From a form to the part that is evaluated in its place. -/
def Tail : Machine → Machine → Prop := Stage cfg P Form.Decided

/-- From an application to the beginning of the function's body. -/
structure Call (m m' : Machine) : Prop where
  stage : Stage cfg P Form.Calls m m'
  entered : ∃ body, m'.control = .eval body

/-- From an expression to the body of a function that is called in tail position of it, through any
nesting of forms. -/
def TailCall (m m' : Machine) : Prop := ∃ m₁, ReflTransGen (Tail cfg P) m m₁ ∧ Call cfg P m₁ m'

end Runs

/-- No more than `r` frames above the stack of `m`. -/
def Rises (r : Nat) (m : Machine) (x : Machine) : Prop := x.stack.depth ≤ m.stack.depth + r

instance (r : Nat) (m x : Machine) : Decidable (Rises r m x) := Nat.decLe _ _

/-! ### Single moves -/

/-- What a dispatch with this result leaves, but for the reductions. -/
inductive Leaves : Except Failure Machine → Machine → Prop where
  | ok {next m' : Machine} (control : m'.control = next.control) (stack : m'.stack = next.stack) :
      Leaves (.ok next) m'
  | error {f : Failure} {m' : Machine} (control : m'.control = .terminated (.failed f)) :
      Leaves (.error f) m'

variable {σ : Type} {cfg : Config} {P : Machine → Prop} {world : World σ} {m m₀ m₁ m₂ m' : Machine}
  {k : Stack} {s : σ} {v e : Value} {vs : List Value} {env : Env} {f : Frame}

theorem leaves_after (m : Machine) (d : Dispatch σ) : Leaves d.machine (m.after d) := by
  unfold after
  cases d.machine with
  | ok next => exact .ok rfl rfl
  | error f => exact .error rfl

theorem Move.of_eval (move : Move cfg m m') (control : m.control = .eval e) {form : Form}
    (read : Form.read cfg.table e = .ok form) :
    ∃ (σ : Type) (world : World σ) (s : σ),
      Leaves (m.evalForm cfg world form m.env s).machine m' := by
  cases move with
  | @dispatch σ world _ s d next =>
    simp only [next?, control, evalStep, read, Option.some.injEq] at next
    exact ⟨σ, world, s, next ▸ leaves_after m d⟩
  | resume resumed =>
    simp only [Machine.resume, control] at resumed
    cases resumed

theorem Move.of_returning (move : Move cfg m m') (control : m.control = .returning)
    (stack : m.stack = k.push f) :
    ∃ (σ : Type) (world : World σ) (s : σ),
      Leaves ({ m with stack := k }.resumeFrame cfg world f m.val m.env s).machine m' := by
  cases move with
  | @dispatch σ world _ s d next =>
    have handed : m.next? cfg world s =
        some ({ m with stack := k }.resumeFrame cfg world f m.val m.env s) := by
      simp only [next?, control, stack, pop?_push]
    obtain rfl := Option.some.inj (handed.symm.trans next)
    exact ⟨σ, world, s, leaves_after m _⟩
  | resume resumed =>
    simp only [Machine.resume, control] at resumed
    cases resumed

/-- A part that was evaluated under a frame is handed to that frame. -/
theorem Evaluates.handed (evaluated : Evaluates cfg P m v m₁) (move : Move cfg m₁ m₂)
    (left : Leaves ((m₀.push cfg f).map (·.eval e env)) m) (stack : m₀.stack = k) :
    ∃ (σ : Type) (world : World σ) (s : σ),
      Leaves ({ m₁ with stack := k }.resumeFrame cfg world f v m₁.env s).machine m₂ := by
  obtain ⟨⟨e', pending⟩, -, returning, rfl, same⟩ := evaluated
  unfold push at left
  split at left
  case isTrue room =>
    cases left with
    | ok control pushed => exact move.of_returning returning (by rw [same, pushed, ← stack]; rfl)
  case isFalse none =>
    cases left with
    | error control => cases control.symm.trans pending

theorem Move.alive (move : Move cfg m m') : m.ending? = none := by
  cases control : m.control with
  | terminated =>
    cases move with
    | dispatch next =>
      simp only [next?, control] at next
      cases next
    | resume resumed =>
      simp only [Machine.resume, control] at resumed
      cases resumed
  | _ => simp only [ending?, control]

theorem Deals.suffix {excused : Failure → Prop} {d : Dispatch σ}
    (deals : Deals cfg world s k excused d)
    (alive : (m.after d).ending? = none) : k.frames <:+ (m.after d).stack.frames := by
  have lands := deals.lands
  unfold after at alive ⊢
  generalize d.machine = result at lands alive
  cases lands with
  | goes grown => exact grown.suffix
  | @ends next ended =>
    have same : next.ending? = none := alive
    simp [same] at ended
  | fails => cases alive

/-- A move that does not end a machine takes no frame off the stack but the innermost one, when the
machine returns to it. -/
theorem Move.suffix (elide : cfg.elide = true) (move : Move cfg m m')
    (alive : m'.ending? = none) :
    m.stack.frames <:+ m'.stack.frames ∨ ∃ (f : Frame) (k : Stack), m.control = .returning ∧
      m.stack = k.push f ∧ k.frames <:+ m'.stack.frames := by
  cases move with
  | dispatch next =>
    rcases next?_deals elide next with ⟨e, -, deals⟩ | ⟨f, k, returning, stack, deals⟩
    · exact .inl (deals.suffix alive)
    · exact .inr ⟨f, k, returning, stack, deals.suffix alive⟩
  | resume resumed =>
    unfold Machine.resume at resumed
    split at resumed
    · obtain rfl := Except.ok.inj resumed
      exact .inl (List.suffix_refl _)
    · cases resumed

/-- What is evaluated hands back the stack that it got: a run that goes below it has come to a value
on it. -/
theorem Run.evaluates (elide : cfg.elide = true) (pending : m.control = .eval e)
    (run : Run cfg P m m') (alive : m'.ending? = none)
    (below : ¬ m.stack.frames <:+ m'.stack.frames) :
    ∃ v m₁, Evaluates cfg P m v m₁ ∧ Run cfg P m₁ m' := by
  induction run with
  | refl => exact absurd (List.suffix_refl _) below
  | @tail b c before last ih =>
    by_cases onto : m.stack.frames <:+ b.stack.frames
    · obtain ⟨f, k, returning, stack, kept⟩ := (last.1.suffix elide alive).resolve_left
        fun kept => below (onto.trans kept)
      rw [stack] at onto
      rcases List.suffix_cons_iff.mp onto with same | deeper
      · have same : b.stack = m.stack := stack.trans (Stack.eq_of_frames same.symm)
        exact ⟨b.val, b, ⟨⟨e, pending⟩, before, returning, rfl, same⟩, .single last⟩
      · exact absurd (deeper.trans kept) below
    · obtain ⟨v, m₁, evaluated, run⟩ := ih last.1.alive onto
      exact ⟨v, m₁, evaluated, run.tail last⟩

/-! ### Parts on their frames -/

/-- The first of the parts, evaluated under a frame, goes to that frame. -/
theorem Parts.under (parts : Parts cfg P (v :: vs) m m')
    (left : Leaves ((m₀.push cfg f).map (·.eval e env)) m) (stack : m₀.stack = k) :
    ∃ (m₁ m₂ : Machine) (σ : Type) (world : World σ) (s : σ), m₁.stack = k ∧
      Leaves (m₁.resumeFrame cfg world f v m₁.env s).machine m₂ ∧ Parts cfg P vs m₂ m' := by
  cases parts with
  | @cons _ _ _ m₁ m₂ _ first move within rest =>
    obtain ⟨σ, world, s, handed⟩ := first.handed move left stack
    exact ⟨{ m₁ with stack := k }, m₂, σ, world, s, rfl, handed, rest⟩

/-- Where there are parts to come, one of them is about to be evaluated. -/
theorem Parts.pending (parts : Parts cfg P (v :: vs) m m') : ∃ e, m.control = .eval e := by
  cases parts with
  | cons first => exact first.pending

theorem parts_sequence {first : Value} {rest : List Value}
    (left : Leaves (m₀.evalSequence cfg first rest env) m) (stack : m₀.stack = k)
    (parts : Parts cfg P vs m m') (count : vs.length = rest.length) :
    m'.stack = k ∧ m'.control = .eval ((first :: rest).getLast (List.cons_ne_nil _ _)) := by
  induction rest generalizing first m₀ m vs env with
  | nil =>
    obtain rfl := List.eq_nil_of_length_eq_zero count
    cases parts with
    | nil => cases left with
      | ok control same => exact ⟨same.trans stack, control⟩
  | cons next others ih =>
    obtain ⟨v, vs, rfl⟩ := List.exists_of_length_succ vs count
    obtain ⟨m₁, m₂, _, _, _, stack, left, parts⟩ := parts.under left stack
    exact ih left stack parts (Nat.succ.inj count)

theorem parts_bindings {name : Bytes} {others : List (Bytes × Value)} {first : Value}
    {rest : List Value}
    (left : Leaves ((m₀.push cfg (.binding name others first rest)).map (·.eval e env)) m)
    (stack : m₀.stack = k) (parts : Parts cfg P vs m m')
    (count : vs.length = others.length + rest.length + 1) :
    m'.stack = k ∧ m'.control = .eval ((first :: rest).getLast (List.cons_ne_nil _ _)) := by
  induction others generalizing name e m₀ m vs env with
  | nil =>
    obtain ⟨v, vs, rfl⟩ := List.exists_of_length_succ vs count
    obtain ⟨m₁, m₂, _, _, _, stack, left, parts⟩ := parts.under left stack
    exact parts_sequence left stack parts (by simpa using count)
  | cons b others ih =>
    obtain ⟨v, vs, rfl⟩ := List.exists_of_length_succ vs count
    obtain ⟨m₁, m₂, _, _, _, stack, left, parts⟩ := parts.under left stack
    exact ih left stack parts (by simp at count; omega)

theorem parts_clauses {body : Value} {others : List (Value × Value)} {falses : List Value}
    (left : Leaves ((m₀.push cfg (.clause body others)).map (·.eval e env)) m)
    (stack : m₀.stack = k) (parts : Parts cfg P (falses ++ [v]) m m')
    (failed : ∀ x ∈ falses, x.truthy = false) (holds : v.truthy = true) :
    m'.stack = k ∧ ∃ tail ∈ body :: others.map (·.2), m'.control = .eval tail := by
  induction falses generalizing body others e m₀ m env with
  | nil =>
    obtain ⟨m₁, m₂, _, _, _, stack, left, parts⟩ := parts.under left stack
    simp only [resumeFrame, holds, if_true] at left
    cases parts with
    | nil => cases left with
      | ok control same => exact ⟨same.trans stack, body, List.mem_cons_self, control⟩
  | cons x falses ih =>
    obtain ⟨m₁, m₂, _, _, _, stack, left, parts⟩ := parts.under left stack
    simp only [resumeFrame, failed x List.mem_cons_self, Bool.false_eq_true, if_false] at left
    cases others with
    | nil =>
      -- without another clause the machine returns, and there is no test to evaluate
      obtain ⟨e, pending⟩ : ∃ e, m₂.control = .eval e := by
        cases falses <;> exact parts.pending
      cases left with
      | ok control => cases control.symm.trans pending
    | cons clause others =>
      obtain ⟨same, tail, member, control⟩ :=
        ih left stack parts fun y member => failed y (List.mem_cons_of_mem _ member)
      exact ⟨same, tail, List.mem_cons_of_mem _ member, control⟩

theorem parts_arguments {params : List Bytes} {body : Value} {captured : Env}
    {done pending : List Value}
    (left : Leaves ((m₀.push cfg (.arguments (.apply params body captured) done pending)).map
      (·.eval e env)) m) (stack : m₀.stack = k) (parts : Parts cfg P vs m m')
    (count : vs.length = pending.length + 1) :
    ∃ (m₁ : Machine) (args : List Value) (env : Env), m₁.stack = k ∧
      Leaves (m₁.enter cfg params body captured args env) m' := by
  induction pending generalizing e m₀ m vs env done with
  | nil =>
    obtain ⟨v, vs, rfl⟩ := List.exists_of_length_succ vs count
    obtain ⟨m₁, m₂, _, _, _, stack, left, parts⟩ := parts.under left stack
    obtain rfl := List.eq_nil_of_length_eq_zero (Nat.succ.inj count)
    cases parts with
    | nil => exact ⟨m₁, _, _, stack, left⟩
  | cons e pending ih =>
    obtain ⟨v, vs, rfl⟩ := List.exists_of_length_succ vs count
    obtain ⟨m₁, m₂, _, _, _, stack, left, parts⟩ := parts.under left stack
    exact ih left stack parts (Nat.succ.inj count)

/-- A head and its arguments lead to the body of the function, if to anything that is evaluated. -/
theorem parts_callee {args : List Value}
    (left : Leaves ((m₀.push cfg (.callee args)).map (·.eval e env)) m) (stack : m₀.stack = k)
    (parts : Parts cfg P vs m m') (count : vs.length = args.length + 1)
    (entered : ∃ body, m'.control = .eval body) :
    ∃ (m₁ : Machine) (params : List Bytes) (body : Value) (captured : Env) (values : List Value)
      (env : Env), m₁.stack = k ∧ Leaves (m₁.enter cfg params body captured values env) m' := by
  obtain ⟨v, vs, rfl⟩ := List.exists_of_length_succ vs count
  obtain ⟨m₁, m₂, _, _, _, stack, left, later⟩ := parts.under left stack
  have going : ∃ e, m₂.control = .eval e := by
    cases vs with
    | nil => cases later with
      | nil => exact entered
    | cons => exact later.pending
  have stopped : ∀ {f : Failure}, ¬ Leaves (.error f) m₂ := by
    intro f left
    obtain ⟨e, control⟩ := going
    cases left with
    | error failed => cases failed.symm.trans control
  simp only [resumeFrame] at left
  split at left
  case h_1 tag params body captured =>
    split at left
    case isFalse => exact absurd left stopped
    cases args with
    | nil =>
      obtain rfl := List.eq_nil_of_length_eq_zero (Nat.succ.inj count)
      cases later with
      | nil => exact ⟨m₁, params, body, captured, [], _, stack, left⟩
    | cons e pending =>
      obtain ⟨m₁, values, env, stack, left⟩ := parts_arguments left stack later (Nat.succ.inj count)
      exact ⟨m₁, params, body, captured, values, env, stack, left⟩
  case h_2 => exact absurd left stopped

/-! ### Tails and calls -/

theorem pushRestore_covered (elide : cfg.elide = true) (covered : m.stack.Covered) (env : Env) :
    m.pushRestore cfg env = .ok m := by
  obtain ⟨saved, rest, frames⟩ := covered
  simp only [pushRestore, frames, elide, if_true]

/-- A body is evaluated on top of a restore frame, the one that was there or a new one. -/
theorem enter_covers (elide : cfg.elide = true) {params : List Bytes} {body : Value}
    {captured : Env} {args : List Value}
    (left : Leaves (m₁.enter cfg params body captured args env) m')
    (entered : ∃ body, m'.control = .eval body) :
    m'.stack.Covered ∧ (m₁.stack.Covered → m'.stack = m₁.stack) := by
  unfold enter at left
  by_cases covered : m₁.stack.Covered
  · rw [pushRestore_covered elide covered] at left
    cases left with
    | ok _ same => exact ⟨same ▸ covered, fun _ => same⟩
  refine ⟨?_, fun other => absurd other covered⟩
  unfold pushRestore at left
  split at left
  case h_1 saved rest frames => exact absurd ⟨saved, rest, frames⟩ covered
  case h_2 =>
    unfold push at left
    split at left
    case isTrue room =>
      cases left with
      | ok _ same =>
        rw [same]
        exact ⟨env, m₁.stack.frames, rfl⟩
    case isFalse none =>
      obtain ⟨body, control⟩ := entered
      cases left with
      | error failed => cases failed.symm.trans control

/-- On top of a restore frame, the part that is evaluated in place of a form has the stack that the
form had. -/
theorem Tail.keeps (elide : cfg.elide = true) (covered : m.stack.Covered)
    (tail : Tail cfg P m m') :
    m'.stack = m.stack ∧ ∃ e form part, m.control = .eval e ∧ Form.read cfg.table e = .ok form ∧
      part ∈ form.tails ∧ m'.control = .eval part := by
  obtain @⟨e, form, vs, m₁, control, read, move, within, parts, reached⟩ := tail
  suffices kept : m'.stack = m.stack ∧ ∃ part ∈ form.tails, m'.control = .eval part by
    obtain ⟨same, part, member, evaluated⟩ := kept
    exact ⟨same, e, form, part, control, read, member, evaluated⟩
  obtain ⟨σ, world, s, left⟩ := move.of_eval control read
  cases form with
  | branch test yes no =>
    obtain ⟨v, rfl⟩ := List.length_eq_one_iff.mp reached
    obtain ⟨m₁, m₂, _, _, _, stack, left, parts⟩ := parts.under left rfl
    cases parts with
    | nil => cases left with
      | ok control same =>
        refine ⟨same.trans stack, _, ?_, control⟩
        split <;> simp [Form.tails]
  | sequence first rest =>
    obtain ⟨same, last⟩ := parts_sequence left rfl parts reached
    exact ⟨same, _, List.mem_singleton_self _, last⟩
  | letIn bs first rest =>
    simp only [evalForm, quiet, pushRestore_covered elide covered] at left
    cases bs with
    | nil =>
      obtain ⟨same, last⟩ := parts_sequence left rfl parts (by simpa [Form.Decided] using reached)
      exact ⟨same, _, List.mem_singleton_self _, last⟩
    | cons b others =>
      have count : vs.length = others.length + rest.length + 1 := by
        simp only [Form.Decided, List.length_cons] at reached
        omega
      obtain ⟨same, last⟩ := parts_bindings left rfl parts count
      exact ⟨same, _, List.mem_singleton_self _, last⟩
  | cond clauses =>
    obtain ⟨falses, v, rfl, failed, holds⟩ := reached
    cases clauses with
    | nil =>
      obtain ⟨e, pending⟩ : ∃ e, m₁.control = .eval e := by
        cases falses <;> exact parts.pending
      cases left with
      | ok control => cases control.symm.trans pending
    | cons clause others => exact parts_clauses left rfl parts failed holds
  | _ => exact reached.elim

theorem Call.covers (elide : cfg.elide = true) (call : Call cfg P m m') :
    m'.stack.Covered ∧ (m.stack.Covered → m'.stack = m.stack) := by
  obtain ⟨@⟨e, form, vs, m₁, control, read, move, within, parts, reached⟩, entered⟩ := call
  obtain ⟨σ, world, s, left⟩ := move.of_eval control read
  cases form with
  | apply head args =>
    obtain ⟨m₂, params, body, captured, values, env, same, left⟩ :=
      parts_callee left rfl parts reached entered
    exact same ▸ enter_covers elide left entered
  | _ => exact reached.elim

theorem tails_keep (elide : cfg.elide = true) (covered : m.stack.Covered)
    (tails : ReflTransGen (Tail cfg P) m m') : m'.stack = m.stack := by
  induction tails with
  | refl => rfl
  | tail _ tail ih => exact (tail.keeps elide (ih ▸ covered)).1.trans ih

theorem TailCall.keeps (elide : cfg.elide = true) (covered : m.stack.Covered)
    (call : TailCall cfg P m m') : m'.stack = m.stack := by
  obtain ⟨m₁, tails, call⟩ := call
  have same := tails_keep elide covered tails
  exact ((call.covers elide).2 (same ▸ covered)).trans same

/-! ### Loops -/

theorem Run.reachable (run : Run cfg P m m') (reachable : Reachable cfg m) :
    Reachable cfg m' := by
  induction run with
  | refl => exact reachable
  | tail _ last ih =>
    cases last.1 with
    | dispatch next => exact ih.dispatch next
    | resume resumed => exact ih.resume resumed

theorem Parts.run (parts : Parts cfg P vs m m') : Run cfg P m m' := by
  induction parts with
  | nil => exact .refl
  | cons first move within _ ih => exact (first.run.tail ⟨move, within⟩).trans ih

theorem Stage.run {upTo : Form → List Value → Prop} (stage : Stage cfg P upTo m m') :
    Run cfg P m m' := by
  obtain ⟨_, _, move, within, parts, _⟩ := stage
  exact .head ⟨move, within⟩ parts.run

theorem TailCall.run (call : TailCall cfg P m m') : Run cfg P m m' := by
  obtain ⟨m₁, tails, call⟩ := call
  have before : Run cfg P m m₁ := by
    clear call
    induction tails with
    | refl => exact .refl
    | tail _ tail ih => exact ih.trans tail.run
  exact before.trans call.stage.run

/-- A loop of tail calls goes no higher above its start than each of its rounds by itself. -/
theorem loop_rises (elide : cfg.elide = true) (covered : m.stack.Covered) {r : Nat}
    (rounds : ReflTransGen (fun a b => TailCall cfg (Rises r a) a b) m m') :
    m'.stack = m.stack ∧ Run cfg (Rises r m) m m' := by
  induction rounds with
  | refl => exact ⟨rfl, .refl⟩
  | @tail a b _ call ih =>
    obtain ⟨same, run⟩ := ih
    refine ⟨(call.keeps elide (same ▸ covered)).trans same, run.trans ?_⟩
    have start : Rises r a = Rises r m := by
      funext x
      simp only [Rises, same]
    exact start ▸ call.run

/-- On top of a restore frame a `let` pushes no other one. -/
theorem letIn_covered (elide : cfg.elide = true) (covered : m.stack.Covered)
    {bs : List (Bytes × Value)} {first : Value} {rest : List Value} {next : Machine}
    (made : (m.evalForm cfg world (.letIn bs first rest) env s).machine = .ok next) :
    next.stack = m.stack ∨ ∃ f, f.isRestore = false ∧ next.stack = m.stack.push f := by
  have pushed {f : Frame} (plain : f.isRestore = false) {e : Value}
      (made : (m.push cfg f).map (·.eval e env) = .ok next) :
      ∃ f, f.isRestore = false ∧ next.stack = m.stack.push f := by
    unfold push at made
    split at made
    · obtain rfl := Except.ok.inj made
      exact ⟨f, plain, rfl⟩
    · cases made
  simp only [evalForm, quiet, pushRestore_covered elide covered] at made
  cases bs with
  | cons b others => exact .inr (pushed rfl made)
  | nil =>
    cases rest with
    | cons e others => exact .inr (pushed rfl made)
    | nil =>
      obtain rfl := Except.ok.inj made
      exact .inl rfl

end Machine

open Machine

/-- The discipline of the stack. It stays within its bound and has no two restore frames side by
side; on top of one, a body or a `let` adds no other. What is evaluated hands back the stack that it
got, and a call in tail position begins the body of its function on the stack that the caller's body
began on, so that a loop of such calls rises no higher than one round of it does. Where there is
room for two frames, only an expression overflows the stack, never a frame that is resumed. -/
theorem stack_discipline (table : SyscallTable) (bound : Int) :
    let cfg := Config.ofBound table bound
    (∀ m, Reachable cfg m → m.stack.depth ≤ cfg.maxFrames ∧ m.stack.Spread ∧
      m.stack.depth ≤ 2 * m.stack.plain + 1) ∧
    (∀ m : Machine, m.stack.Covered →
      (∀ params body captured args env, m.enter cfg params body captured args env =
        .ok (m.eval body ((env.merge captured).bindAll params args))) ∧
      ∀ (σ : Type) (world : World σ) (s : σ) bs first rest env next,
        (m.evalForm cfg world (.letIn bs first rest) env s).machine = .ok next →
        next.stack = m.stack ∨ ∃ f, f.isRestore = false ∧ next.stack = m.stack.push f) ∧
    (∀ P m e m', m.control = .eval e → Run cfg P m m' → m'.ending? = none →
      ¬ m.stack.frames <:+ m'.stack.frames →
      ∃ v m₁, Evaluates cfg P m v m₁ ∧ Run cfg P m₁ m') ∧
    (∀ P m m', Call cfg P m m' → m'.stack.Covered) ∧
    (∀ P m m', m.stack.Covered → Tail cfg P m m' →
      m'.stack = m.stack ∧ ∃ e form part, m.control = .eval e ∧
        Form.read cfg.table e = .ok form ∧ part ∈ form.tails ∧ m'.control = .eval part) ∧
    (∀ P m m', m.stack.Covered → TailCall cfg P m m' → m'.stack = m.stack) ∧
    (∀ r m m', m.stack.Covered →
      ReflTransGen (fun a b => TailCall cfg (Rises r a) a b) m m' → Run cfg (Rises r m) m m') ∧
    (2 ≤ cfg.maxFrames → ∀ m, Reachable cfg m → m.control = .returning →
      ∀ (σ : Type) (world : World σ) (s : σ) d f, m.next? cfg world s = some d →
        d.machine = .error f → f.kind = ErrorKind.stackOverflow →
        ∃ target done, m.stack.frames.head? = some (.arguments target done []) ∧
          Foreign cfg world s target (m.val :: done).reverse f) := by
  intro cfg
  have elide : cfg.elide = true := rfl
  have room : 0 < cfg.maxFrames := Config.maxFrames_pos table bound
  refine ⟨?_, ?_, ?_, ?_, ?_, ?_, ?_, ?_⟩
  · intro m reachable
    have disciplined := reachable.disciplined elide room
    exact ⟨disciplined.bounded, disciplined.spread, disciplined.spread.depth_le⟩
  · intro m covered
    constructor
    · intro params body captured args env
      rw [enter, pushRestore_covered elide covered]
      rfl
    · intro σ world s bs first rest env next made
      exact letIn_covered elide covered made
  · intro P m e m' pending run alive below
    exact run.evaluates elide pending alive below
  · intro P m m' call
    exact (call.covers elide).1
  · intro P m m' covered tail
    exact tail.keeps elide covered
  · intro P m m' covered call
    exact call.keeps elide covered
  · intro r m m' covered rounds
    exact (loop_rises elide covered rounds).2
  · intro two m reachable returning σ world s d f next failed overflow
    exact reachable.resumed_within elide two returning next failed overflow

/-! ### A function that calls itself -/

namespace SelfCall

/-- A syscall that claims an overflow. -/
def boom : Syscall :=
  { name := ascii "boom", arity := 1, run := fun _ => .fail (.stackOverflow 0) }

/-- Room for two frames. -/
def cfg : Config := .ofBound (.add [] boom) 2

def call : Value := .list [.sym [0x66]]

def loop : Value := .list [.sym (ascii "if"), .int 1, call, .int 0]

def env : Env := [([0x66], .lambda ⟨0, 0⟩ [] loop [])]

/-- About to evaluate the body, after so many reductions. -/
def body (reductions : UInt64) : Machine :=
  { control := .eval loop, env, val := .lambda ⟨0, 0⟩ [] loop [],
    stack := Stack.empty.push (.restore env), reductions }

/-- About to evaluate the call in the body. -/
def calling (reductions : UInt64) : Machine :=
  { body reductions with control := .eval call, val := .int 1 }

/-- About to evaluate the head of the first call. -/
def head : Machine :=
  { control := .eval (.sym [0x66]), env, stack := Stack.empty.push (.callee []), reductions := 1 }

def explosion : Value := .list [.sym (ascii "boom"), .int 1]

/-- About to hand an argument to the syscall. -/
def handing : Machine :=
  { control := .returning, val := .int 1, reductions := 2
    stack := Stack.empty.push (.arguments (.syscall (ascii "boom")) [] []) }

theorem move {m m' : Machine} (next : advance? cfg .solitary (m, []) = some (m', [])) :
    Move cfg m m' := by
  obtain ⟨d, found, landed⟩ := Option.map_eq_some_iff.mp next
  obtain ⟨rfl, -⟩ := Prod.mk.inj landed
  exact .dispatch found

/-- A form with one part that needs a single dispatch. -/
theorem stage {P : Machine → Prop} {upTo : Form → List Value → Prop} {e part : Value} {form : Form}
    {m₀ m₁ m₂ m₃ : Machine} (read : Form.read cfg.table e = .ok form)
    (reached : ∀ v, upTo form [v]) (first : Move cfg m₀ m₁) (second : Move cfg m₁ m₂)
    (third : Move cfg m₂ m₃) (control : m₀.control = .eval e) (pending : m₁.control = .eval part)
    (returning : m₂.control = .returning) (same : m₂.stack = m₁.stack)
    (within : P m₁ ∧ P m₂ ∧ P m₃) : Stage cfg P upTo m₀ m₃ := by
  have evaluated : Evaluates cfg P m₁ m₂.val m₂ :=
    ⟨⟨part, pending⟩, .single ⟨second, within.2.1⟩, returning, rfl, same⟩
  have parts : Parts cfg P [m₂.val] m₁ m₃ := .cons evaluated third within.2.2 (.nil m₃)
  exact .intro control read first within.1 parts (reached _)

end SelfCall

open SelfCall in
/-- Rounds of a function that calls itself in a conditional, and a syscall that fails when it is
resumed. -/
theorem stack_discipline_of_self_call :
    (body 3).stack.Covered ∧ (body 15).stack.depth ≤ cfg.maxFrames ∧
      (body 3).enter cfg [] loop [] [] env = .ok (body 3) ∧
      (calling 6).stack = (body 3).stack ∧ (body 9).stack = (body 3).stack ∧
      Run cfg (Rises 1 (body 3)) (body 3) (body 15) ∧
      (∃ v m₁, Evaluates cfg (Rises 1 (body 3)) head v m₁ ∧
        Run cfg (Rises 1 (body 3)) m₁ (body 3)) ∧
      ∃ target done, handing.stack.frames.head? = some (.arguments target done []) ∧
        Foreign cfg .solitary [] target (handing.val :: done).reverse (.stackOverflow 0) := by
  have reads : Form.read cfg.table loop = .ok (.branch (.int 1) call (.int 0)) := rfl
  have applies : Form.read cfg.table call = .ok (.apply (.sym [0x66]) []) := rfl
  have called : Call cfg (Rises 1 (body 3)) (({} : Machine).load [call] env) (body 3) :=
    ⟨stage applies (fun _ => rfl) (move rfl) (move rfl) (move rfl) rfl rfl rfl rfl (by decide),
      _, rfl⟩
  have tail : Tail cfg (Rises 1 (body 3)) (body 3) (calling 6) :=
    stage reads (fun _ => rfl) (move rfl) (move rfl) (move rfl) rfl rfl rfl rfl (by decide)
  have second : TailCall cfg (Rises 1 (body 3)) (body 3) (body 9) :=
    ⟨calling 6, .single tail, stage applies (fun _ => rfl) (move rfl) (move rfl) (move rfl)
      rfl rfl rfl rfl (by decide), _, rfl⟩
  have third : TailCall cfg (Rises 1 (body 9)) (body 9) (body 15) :=
    ⟨calling 12, .single (stage reads (fun _ => rfl) (move rfl) (move rfl) (move rfl)
      rfl rfl rfl rfl (by decide)), stage applies (fun _ => rfl) (move rfl) (move rfl) (move rfl)
      rfl rfl rfl rfl (by decide), _, rfl⟩
  have start : Reachable cfg (({} : Machine).load [call] env) := .load (.fresh {}) [call] env
  obtain ⟨bounded, entering, evaluates, covers, tails, keeps, loops, within⟩ :=
    stack_discipline (.add [] boom) 2
  have covered := covers _ _ _ called
  have run := loops 1 _ _ covered (.tail (.single second) third)
  refine ⟨covered, ?_, ?_, (tails _ _ _ covered tail).1, keeps _ _ _ covered second, run, ?_, ?_⟩
  · exact (bounded _ (run.reachable (called.stage.run.reachable start))).1
  · exact (entering _ covered).1 [] loop [] [] env
  · refine evaluates _ head _ (body 3) rfl (.tail (.single ⟨move rfl, ?_⟩) ⟨move rfl, ?_⟩) rfl ?_
    · decide
    · decide
    · intro suffix
      rcases List.suffix_cons_iff.mp suffix with same | ⟨_, same⟩
      · cases same
      · cases (List.append_eq_nil_iff.mp same).2
  · have loaded : Reachable cfg (({} : Machine).load [explosion] []) :=
      .load (.fresh {}) [explosion] []
    have steps : Run cfg (fun _ => True) (({} : Machine).load [explosion] []) handing :=
      .head ⟨move rfl, trivial⟩ (.single ⟨move rfl, trivial⟩)
    exact within (by decide) handing (steps.reachable loaded) rfl _ .solitary [] _ _ rfl rfl rfl

end ProcLisp
