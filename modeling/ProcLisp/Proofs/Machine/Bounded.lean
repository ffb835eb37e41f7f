import ProcLisp.Proofs.Machine.Following

/-!
# Evaluation by recursion on a bounded stack

The recursion with the frames counted. An evaluation knows how many frames there are below it and
whether the innermost one brings an environment back. It fails where there is no room for the frame
that it needs, so that overflows are answers like all others.
-/

namespace ProcLisp

theorem Machine.Config.maxFrames_pos (table : SyscallTable) (bound : Int) :
    0 < (Config.ofBound table bound).maxFrames := by
  simp only [Config.ofBound, defaultFrames]
  split <;> omega

/-- What an evaluation finds on the stack. -/
structure Footing where
  depth : Nat
  /-- The innermost frame replaces the environment. -/
  covered : Bool

def Stack.footing (k : Stack) : Footing := ⟨k.depth, k.frames.head?.any Frame.isRestore⟩

namespace Bounded

open Machine (Config)
open Recursive (Eval)
open Recursive.Eval

section Parts

variable (cfg : Config) (ev : Footing → Value → Eval Value) (base : Footing)

/-- There is no room for another frame. -/
def overflow {α : Type} : Eval α := fail (.stackOverflow cfg.maxFrames)

/-- Evaluates under a new frame. -/
def under (e : Value) : Eval Value :=
  if base.depth < cfg.maxFrames then ev ⟨base.depth + 1, false⟩ e else overflow cfg

/-- What `x` does in a scope of its own, which needs no frame on top of one that brings back an
environment. -/
def enclosed {α : Type} (x : Footing → Eval α) : Eval α :=
  if base.covered && cfg.elide then inScope (x base)
  else if base.depth < cfg.maxFrames then inScope (x ⟨base.depth + 1, true⟩)
  else overflow cfg

/-- All but the last are evaluated under a frame. -/
def sequence : Value → List Value → Eval Value
  | first, [] => ev base first
  | first, next :: rest => do
    let _ ← under cfg ev base first
    sequence next rest

def clauses : List (Value × Value) → Eval Value
  | [] => pure Machine.incompleteCond
  | (test, body) :: rest => do
    if (← under cfg ev base test).truthy then ev base body else clauses rest

def apply (f : Value) (args : List Value) : Eval Value :=
  match f with
  | .lambda _ params body captured =>
    if args.length = params.length then do
      let vs ← Recursive.arguments (under cfg ev base) args
      enclosed cfg base fun inner => do
        modify fun env => (env.merge captured).bindAll params vs
        ev inner body
    else fail (.arityMismatch f params.length args.length)
  | f => fail (.notFunction f)

def form : Form → Eval Value
  | .value v => pure v
  | .lookup name => fun env => ofExcept (env.lookup name) env
  | .branch test yes no => do
    if (← under cfg ev base test).truthy then ev base yes else ev base no
  | .sequence first rest => sequence cfg ev base first rest
  | .define name expr => do
    let v ← under cfg ev base expr
    modify (·.bind name v)
    pure v
  | .letIn bs first rest => enclosed cfg base fun inner => do
    Recursive.bindings (under cfg ev inner) bs
    sequence cfg ev inner first rest
  | .lambda params body => close params body
  | .cond cs => clauses cfg ev base cs
  | .list items => do
    let vs ← Recursive.arguments (under cfg ev base) items
    pure (.list vs)
  | .primitive p args => do
    let _ ← Recursive.arguments (under cfg ev base) args
    fail (.notInProcess p.name)
  | .syscall name args => do
    let vs ← Recursive.arguments (under cfg ev base) args
    Recursive.syscall cfg.table name vs
  | .apply head args => do
    let f ← under cfg ev base head
    apply cfg ev base f args

end Parts

/-- Evaluates an expression whose evaluations nest no deeper than `n`. -/
def evaluate (cfg : Config) : (n : Nat) → Footing → Value → Eval Value
  | 0, _, _ => exhausted
  | n + 1, base, expr => match Form.read cfg.table expr with
    | .error f => fail f
    | .ok f => form cfg (evaluate cfg n) base f

theorem evaluate_of_read {cfg : Config} {expr : Value} {f : Form}
    (read : Form.read cfg.table expr = .ok f) (n : Nat) (base : Footing) :
    evaluate cfg (n + 1) base expr = form cfg (evaluate cfg n) base f := by
  rw [evaluate, read]

/-- What a program finds on the stack. -/
def ground : Footing := ⟨0, false⟩

/-- Evaluates expressions in order; an empty program yields the empty list. -/
def program (cfg : Config) (n : Nat) : List Value → Eval Value
  | [] => pure .empty
  | [e] => evaluate cfg n ground e
  | e :: next :: others => do
    let _ ← evaluate cfg n ⟨1, false⟩ e
    sequence cfg (evaluate cfg n) ground next others

end Bounded

/-! ### Answers that are kept -/

/-- `y` comes to what `x` does, except where `lost` allows for more: for `x` to have no answer, or
to fail in some way. -/
def Recursive.Eval.Refines {α : Type} (lost : Option Failure → Prop) (y x : Eval α) : Prop :=
  ∀ env amb, y env amb = x env amb ∨ x env amb = none ∧ lost none ∨
    ∃ f amb', x env amb = some (.error f, amb') ∧ lost (some f)

namespace Bounded

open Machine (Config)
open Recursive (Ambient Eval)
open Recursive.Eval

section Refinement

variable {α β : Type} {lost : Option Failure → Prop} {x y : Eval α} {f g : α → Eval β}

theorem refines_refl (x : Eval α) : x.Refines lost x := fun _ _ => .inl rfl

/-- An answer that may not be lost is kept. -/
theorem answer_of_refines (refines : y.Refines lost x) {env : Env} {amb : Ambient}
    {r : Except Failure (α × Env) × Ambient} (answer : x env amb = some r)
    (kept : ∀ f, r.1 = .error f → ¬ lost (some f)) : y env amb = some r := by
  rcases refines env amb with same | ⟨none, -⟩ | ⟨f, amb', failed, loss⟩
  · exact same.trans answer
  · cases answer.symm.trans none
  · obtain rfl := Option.some.inj (answer.symm.trans failed)
    exact absurd loss (kept f rfl)

theorem refines_bind (first : y.Refines lost x) (next : ∀ a, (g a).Refines lost (f a)) :
    (y >>= g).Refines lost (x >>= f) := by
  intro env amb
  simp only [Bind.bind]
  rcases first env amb with same | ⟨none, loss⟩ | ⟨f, amb', failed, loss⟩
  · rw [same]
    rcases x env amb with _ | ⟨⟨e⟩ | ⟨a, env'⟩, amb'⟩
    · exact .inl rfl
    · exact .inl rfl
    · exact next a env' amb'
  · rw [none]
    exact .inr (.inl ⟨rfl, loss⟩)
  · rw [failed]
    exact .inr (.inr ⟨f, amb', rfl, loss⟩)

theorem refines_inScope (inner : y.Refines lost x) : (inScope y).Refines lost (inScope x) := by
  intro env amb
  simp only [inScope]
  rcases inner env amb with same | ⟨none, loss⟩ | ⟨f, amb', failed, loss⟩
  · rw [same]
    exact .inl rfl
  · rw [none]
    exact .inr (.inl ⟨rfl, loss⟩)
  · rw [failed]
    exact .inr (.inr ⟨f, amb', rfl, loss⟩)

theorem refines_arguments {ev ev' : Value → Eval Value}
    (more : ∀ e, (ev' e).Refines lost (ev e)) (args : List Value) :
    (Recursive.arguments ev' args).Refines lost (Recursive.arguments ev args) := by
  induction args with
  | nil => exact refines_refl _
  | cons e rest ih =>
    exact refines_bind (more e) fun _ => refines_bind ih fun _ => refines_refl _

theorem refines_bindings {ev ev' : Value → Eval Value}
    (more : ∀ e, (ev' e).Refines lost (ev e)) (bs : List (Bytes × Value)) :
    (Recursive.bindings ev' bs).Refines lost (Recursive.bindings ev bs) := by
  induction bs with
  | nil => exact refines_refl _
  | cons b rest ih =>
    exact refines_bind (more b.2) fun _ => refines_bind (refines_refl _) fun _ => ih

end Refinement

/-! ### More depth and more room -/

/-- There is as much room or more. Where there is more, overflows may be lost. -/
structure Roomier (cfg : Config) (lost : Option Failure → Prop) (base' base : Footing) :
    Prop where
  lower : base'.depth ≤ base.depth
  covered : base'.covered = base.covered
  overflows : base'.depth < base.depth → lost (some (.stackOverflow cfg.maxFrames))

section Room

variable {cfg : Config} {lost : Option Failure → Prop} {base base' : Footing}
  {ev ev' : Footing → Value → Eval Value}

theorem Roomier.refl (base : Footing) : Roomier cfg lost base base :=
  ⟨Nat.le_refl _, rfl, fun less => absurd less (Nat.lt_irrefl _)⟩

theorem Roomier.push (room : Roomier cfg lost base' base) (covered : Bool) :
    Roomier cfg lost ⟨base'.depth + 1, covered⟩ ⟨base.depth + 1, covered⟩ :=
  ⟨Nat.succ_le_succ room.lower, rfl, fun less => room.overflows (Nat.lt_of_succ_lt_succ less)⟩

/-- Where the stack is full, what had more room fails alike or did not count. -/
theorem Roomier.full (room : Roomier cfg lost base' base) (full : ¬ base.depth < cfg.maxFrames)
    {α : Type} (y : Eval α) :
    (if base'.depth < cfg.maxFrames then y else overflow cfg).Refines lost (overflow cfg) := by
  intro env amb
  split
  · exact .inr (.inr ⟨_, amb, rfl, room.overflows (by omega)⟩)
  · exact .inl rfl

variable (more : ∀ {base' base : Footing}, Roomier cfg lost base' base →
  ∀ e, (ev' base' e).Refines lost (ev base e))

include more

theorem refines_under (room : Roomier cfg lost base' base) (e : Value) :
    (under cfg ev' base' e).Refines lost (under cfg ev base e) := by
  unfold under
  by_cases free : base.depth < cfg.maxFrames
  · rw [if_pos free, if_pos (Nat.lt_of_le_of_lt room.lower free)]
    exact more (room.push false) e
  · rw [if_neg free]
    exact room.full free _

omit more in
theorem refines_enclosed (room : Roomier cfg lost base' base) {α : Type} {x y : Footing → Eval α}
    (inner : ∀ {base' base : Footing}, Roomier cfg lost base' base →
      (y base').Refines lost (x base)) :
    (enclosed cfg base' y).Refines lost (enclosed cfg base x) := by
  unfold enclosed
  rw [room.covered]
  split
  · exact refines_inScope (inner room)
  by_cases free : base.depth < cfg.maxFrames
  · rw [if_pos free, if_pos (Nat.lt_of_le_of_lt room.lower free)]
    exact refines_inScope (inner (room.push true))
  · rw [if_neg free]
    exact room.full free _

theorem refines_sequence (room : Roomier cfg lost base' base) (first : Value) (rest : List Value) :
    (sequence cfg ev' base' first rest).Refines lost (sequence cfg ev base first rest) := by
  induction rest generalizing first with
  | nil => exact more room first
  | cons next rest ih => exact refines_bind (refines_under more room first) fun _ => ih next

theorem refines_clauses (room : Roomier cfg lost base' base) (cs : List (Value × Value)) :
    (clauses cfg ev' base' cs).Refines lost (clauses cfg ev base cs) := by
  induction cs with
  | nil => exact refines_refl _
  | cons c rest ih =>
    refine refines_bind (refines_under more room c.1) fun v => ?_
    split
    · exact more room c.2
    · exact ih

theorem refines_apply (room : Roomier cfg lost base' base) (f : Value) (args : List Value) :
    (apply cfg ev' base' f args).Refines lost (apply cfg ev base f args) := by
  cases f with
  | lambda tag params body captured =>
    simp only [apply]
    split
    · refine refines_bind (refines_arguments (refines_under more room) args) fun vs => ?_
      exact refines_enclosed room fun inner =>
        refines_bind (refines_refl _) fun _ => more inner body
    · exact refines_refl _
  | _ => exact refines_refl _

theorem refines_form (room : Roomier cfg lost base' base) (f : Form) :
    (form cfg ev' base' f).Refines lost (form cfg ev base f) := by
  cases f with
  | value _ | lookup _ | lambda _ _ => exact refines_refl _
  | branch test yes no =>
    refine refines_bind (refines_under more room test) fun v => ?_
    split
    · exact more room yes
    · exact more room no
  | sequence first rest => exact refines_sequence more room first rest
  | define name expr =>
    exact refines_bind (refines_under more room expr) fun _ => refines_refl _
  | letIn bs first rest =>
    exact refines_enclosed room fun inner =>
      refines_bind (refines_bindings (refines_under more inner) bs) fun _ =>
        refines_sequence more inner first rest
  | cond cs => exact refines_clauses more room cs
  | list args | primitive _ args | syscall _ args =>
    exact refines_bind (refines_arguments (refines_under more room) args) fun _ => refines_refl _
  | apply head args =>
    exact refines_bind (refines_under more room head) fun f => refines_apply more room f args

end Room

/-- More depth keeps all answers, and more room all those that are not overflows. -/
theorem evaluate_refines {cfg : Config} {lost : Option Failure → Prop} (exhausts : lost none)
    {n n' : Nat} (le : n ≤ n') {base' base : Footing} (room : Roomier cfg lost base' base)
    (e : Value) : (evaluate cfg n' base' e).Refines lost (evaluate cfg n base e) := by
  induction n generalizing n' base' base e with
  | zero => exact fun env amb => .inr (.inl ⟨rfl, exhausts⟩)
  | succ n ih =>
    obtain ⟨more, rfl⟩ : ∃ k, n' = k + 1 := ⟨n' - 1, by omega⟩
    simp only [evaluate]
    split
    · exact refines_refl _
    · exact refines_form (fun room => ih (by omega) room) room _

end Bounded

namespace Bounded

open Machine (Config)
open Recursive (Ambient Eval)

/-- More depth keeps the answers of programs. -/
theorem program_refines (cfg : Config) {lost : Option Failure → Prop} (exhausts : lost none)
    {n n' : Nat} (le : n ≤ n') (exprs : List Value) :
    (program cfg n' exprs).Refines lost (program cfg n exprs) := by
  rcases exprs with _ | ⟨e, _ | ⟨next, others⟩⟩
  · exact refines_refl _
  · exact evaluate_refines exhausts le (.refl _) e
  · exact refines_bind (evaluate_refines exhausts le (.refl _) e) fun _ =>
      refines_sequence (evaluate_refines exhausts le) (.refl _) next others

end Bounded

/-! ### What was printed before -/

/-- The same, after that much output. -/
def Recursive.Ambient.onto (amb : Recursive.Ambient) (before : Transcript) : Recursive.Ambient :=
  { amb with transcript := amb.transcript ++ before }

/-- `x` does the same whatever was printed before. -/
def Recursive.Eval.Appends {α : Type} (x : Eval α) : Prop :=
  ∀ env amb before, x env (amb.onto before) = (x env amb).map fun r => (r.1, r.2.onto before)

namespace Bounded

open Machine (Config)
open Recursive (Eval)
open Recursive.Eval

section Appending

variable {α β : Type} {x : Eval α} {f : α → Eval β} {cfg : Config}
  {ev : Footing → Value → Eval Value} {base : Footing}

theorem appends_pure (a : α) : (pure a : Eval α).Appends := fun _ _ _ => rfl

theorem appends_fail (f : Failure) : (fail f : Eval α).Appends := fun _ _ _ => rfl

theorem appends_modify (f : Env → Env) : (modify f).Appends := fun _ _ _ => rfl

theorem appends_ofExcept (result : Except Failure α) : (ofExcept result).Appends := by
  cases result <;> exact fun _ _ _ => rfl

theorem appends_bind (first : x.Appends) (next : ∀ a, (f a).Appends) : (x >>= f).Appends := by
  intro env amb before
  simp only [Bind.bind, first env amb before]
  rcases x env amb with _ | ⟨⟨e⟩ | ⟨a, env'⟩, amb'⟩
  · rfl
  · rfl
  · exact next a env' amb' before

theorem appends_inScope (inner : x.Appends) : (inScope x).Appends := by
  intro env amb before
  simp only [inScope, inner env amb before]
  rcases x env amb with _ | ⟨⟨e⟩ | ⟨a, env'⟩, amb'⟩ <;> rfl

theorem appends_arguments {ev : Value → Eval Value} (all : ∀ e, (ev e).Appends)
    (args : List Value) : (Recursive.arguments ev args).Appends := by
  induction args with
  | nil => exact appends_pure _
  | cons e rest ih =>
    exact appends_bind (all e) fun _ => appends_bind ih fun _ => appends_pure _

theorem appends_bindings {ev : Value → Eval Value} (all : ∀ e, (ev e).Appends)
    (bs : List (Bytes × Value)) : (Recursive.bindings ev bs).Appends := by
  induction bs with
  | nil => exact appends_pure _
  | cons b rest ih =>
    exact appends_bind (all b.2) fun _ => appends_bind (appends_modify _) fun _ => ih

theorem appends_print (text : Bytes) : (print text).Appends := by
  intro env amb before
  simp only [print, Recursive.Ambient.onto, Option.map_some]
  split <;> rfl

theorem appends_syscall (table : SyscallTable) (name : Bytes) (args : List Value) :
    (Recursive.syscall table name args).Appends :=
  appends_bind (appends_print _) fun _ => appends_ofExcept _

theorem appends_enclosed {x : Footing → Eval α} (inner : ∀ base, (x base).Appends) :
    (enclosed cfg base x).Appends := by
  unfold enclosed
  split
  · exact appends_inScope (inner _)
  split
  · exact appends_inScope (inner _)
  · exact appends_fail _

variable (all : ∀ base e, (ev base e).Appends)

include all

theorem appends_under (e : Value) : (under cfg ev base e).Appends := by
  unfold under
  split
  · exact all _ e
  · exact appends_fail _

theorem appends_sequence (first : Value) (rest : List Value) :
    (sequence cfg ev base first rest).Appends := by
  induction rest generalizing first with
  | nil => exact all base first
  | cons next rest ih => exact appends_bind (appends_under all first) fun _ => ih next

theorem appends_clauses (cs : List (Value × Value)) : (clauses cfg ev base cs).Appends := by
  induction cs with
  | nil => exact appends_pure _
  | cons c rest ih =>
    refine appends_bind (appends_under all c.1) fun v => ?_
    split
    · exact all base c.2
    · exact ih

theorem appends_apply (f : Value) (args : List Value) : (apply cfg ev base f args).Appends := by
  cases f with
  | lambda tag params body captured =>
    simp only [apply]
    split
    · refine appends_bind (appends_arguments (appends_under all) args) fun vs => ?_
      exact appends_enclosed fun inner => appends_bind (appends_modify _) fun _ => all inner body
    · exact appends_fail _
  | _ => exact appends_fail _

theorem appends_form (f : Form) : (form cfg ev base f).Appends := by
  cases f with
  | value v => exact appends_pure v
  | lookup name => exact fun env => appends_ofExcept (env.lookup name) env
  | branch test yes no =>
    refine appends_bind (appends_under all test) fun v => ?_
    split
    · exact all base yes
    · exact all base no
  | sequence first rest => exact appends_sequence all first rest
  | define name expr =>
    exact appends_bind (appends_under all expr) fun v =>
      appends_bind (appends_modify _) fun _ => appends_pure v
  | letIn bs first rest =>
    rw [form]
    refine appends_enclosed fun inner => ?_
    exact appends_bind (appends_bindings (appends_under all) bs) fun _ =>
      appends_sequence all first rest
  | lambda params body => exact fun _ _ _ => rfl
  | cond cs => exact appends_clauses all cs
  | list items =>
    exact appends_bind (appends_arguments (appends_under all) items) fun _ => appends_pure _
  | primitive p args =>
    exact appends_bind (appends_arguments (appends_under all) args) fun _ => appends_fail _
  | syscall name args =>
    exact appends_bind (appends_arguments (appends_under all) args) fun vs =>
      appends_syscall cfg.table name vs
  | apply head args => exact appends_bind (appends_under all head) fun f => appends_apply all f args

end Appending

theorem evaluate_appends (cfg : Config) (n : Nat) (base : Footing) (e : Value) :
    (evaluate cfg n base e).Appends := by
  induction n generalizing base e with
  | zero => exact fun _ _ _ => rfl
  | succ n ih =>
    simp only [evaluate]
    split
    · exact appends_fail _
    · exact appends_form ih _

end Bounded
end ProcLisp
