import ProcLisp.Machine.Eval

/-!
# Evaluation by recursion

What an expression means, without a machine: its parts are evaluated from left to right, each in the
environment that the one before it left. `do` and `def` leave their bindings behind, `let` and
calls do not. The recursion is on the depth to which evaluations nest; more depth keeps an answer.
-/

namespace ProcLisp.Recursive

/-- What is used up and written to, whatever the environment: the numbers of lambdas and the
output. -/
structure Ambient where
  supply : Supply
  transcript : Transcript

/-- An evaluation that starts from an environment. It has no answer if the depth did not suffice;
else it fails, or answers and leaves an environment. -/
def Eval (α : Type) : Type := Env → Ambient → Option (Except Failure (α × Env) × Ambient)

namespace Eval

variable {α β : Type}

instance : Monad Eval where
  pure a := fun env amb => some (.ok (a, env), amb)
  bind x f := fun env amb => match x env amb with
    | none => none
    | some (.error e, amb) => some (.error e, amb)
    | some (.ok (a, env), amb) => f a env amb

theorem pure_bind (a : α) (f : α → Eval β) : pure a >>= f = f a := rfl

theorem bind_assoc {γ : Type} (x : Eval α) (f : α → Eval β) (g : β → Eval γ) :
    x >>= f >>= g = x >>= fun a => f a >>= g := by
  funext env amb
  simp only [Bind.bind]
  match x env amb with
  | none => rfl
  | some (.error _, _) => rfl
  | some (.ok _, _) => rfl

/-- There is no answer at this depth. -/
def exhausted : Eval α := fun _ _ => none

def fail (f : Failure) : Eval α := fun _ amb => some (.error f, amb)

def ofExcept : Except Failure α → Eval α
  | .ok a => pure a
  | .error f => fail f

/-- Changes the environment from here on. -/
def modify (f : Env → Env) : Eval Unit := fun env amb => some (.ok ((), f env), amb)

/-- The environment from before is current again after `x`. -/
def inScope (x : Eval α) : Eval α := fun env amb => match x env amb with
  | none => none
  | some (.error e, amb) => some (.error e, amb)
  | some (.ok (a, _), amb) => some (.ok (a, env), amb)

def print (text : Bytes) : Eval Unit := fun env amb =>
  some (.ok ((), env),
    { amb with transcript := if text.isEmpty then amb.transcript else text :: amb.transcript })

/-- A lambda over the current environment, told from all others by its tag. -/
def close (params : List Bytes) (body : Value) : Eval Value := fun env amb =>
  some (.ok (.lambda ⟨amb.supply.origin, amb.supply.next⟩ params body env, env),
    { amb with supply.next := amb.supply.next + 1 })

end Eval

open Eval

section Parts

/-! ### The parts of forms, for an evaluation `ev` of expressions -/

variable (ev : Value → Eval Value)

/-- One after the other. The value of the last one counts. -/
def sequence : Value → List Value → Eval Value
  | first, [] => ev first
  | first, next :: rest => do
    let _ ← ev first
    sequence next rest

def arguments : List Value → Eval (List Value)
  | [] => pure []
  | e :: rest => do
    let v ← ev e
    let vs ← arguments rest
    pure (v :: vs)

/-- Binds names to values one after the other, each in sight of those before it. -/
def bindings : List (Bytes × Value) → Eval Unit
  | [] => pure ()
  | (name, expr) :: rest => do
    let v ← ev expr
    modify (·.bind name v)
    bindings rest

/-- The body of the first clause whose test holds. -/
def clauses : List (Value × Value) → Eval Value
  | [] => pure Machine.incompleteCond
  | (test, body) :: rest => do
    if (← ev test).truthy then ev body else clauses rest

def syscall (table : SyscallTable) (name : Bytes) (args : List Value) : Eval Value := do
  let (printed, result) := table.invoke name args
  print printed
  ofExcept result

/-- Only a lambda can be applied, and only to as many arguments as it has parameters; both are
checked before any argument is evaluated. -/
def apply (f : Value) (args : List Value) : Eval Value :=
  match f with
  | .lambda _ params body captured =>
    if args.length = params.length then do
      let vs ← arguments ev args
      inScope do
        modify fun env => (env.merge captured).bindAll params vs
        ev body
    else fail (.arityMismatch f params.length args.length)
  | f => fail (.notFunction f)

def form (table : SyscallTable) : Form → Eval Value
  | .value v => pure v
  | .lookup name => fun env => ofExcept (env.lookup name) env
  | .branch test yes no => do
    if (← ev test).truthy then ev yes else ev no
  | .sequence first rest => sequence ev first rest
  | .define name expr => do
    let v ← ev expr
    modify (·.bind name v)
    pure v
  | .letIn bs first rest => inScope do
    bindings ev bs
    sequence ev first rest
  | .lambda params body => close params body
  | .cond cs => clauses ev cs
  | .list items => do
    let vs ← arguments ev items
    pure (.list vs)
  | .primitive p args => do
    let _ ← arguments ev args
    fail (.notInProcess p.name)
  | .syscall name args => do
    let vs ← arguments ev args
    syscall table name vs
  | .apply head args => do
    let f ← ev head
    apply ev f args

end Parts

/-- Evaluates an expression whose evaluations nest no deeper than `depth`. The shape of a form is
checked before any part of it is evaluated. -/
def evaluate (table : SyscallTable) : (depth : Nat) → Value → Eval Value
  | 0, _ => exhausted
  | depth + 1, expr => match Form.read table expr with
    | .error f => fail f
    | .ok f => form (evaluate table depth) table f

/-- Evaluates expressions in order; an empty program yields the empty list. -/
def program (table : SyscallTable) (depth : Nat) : List Value → Eval Value
  | [] => pure .empty
  | e :: rest => sequence (evaluate table depth) e rest

/-! ### More depth keeps an answer -/

/-- `y` answers as `x` does wherever `x` has an answer. -/
def Eval.Extends {α : Type} (y x : Eval α) : Prop :=
  ∀ env amb r, x env amb = some r → y env amb = some r

section Extension

variable {α β : Type} {x y : Eval α} {f g : α → Eval β} {ev ev' : Value → Eval Value}

theorem extends_refl (x : Eval α) : x.Extends x := fun _ _ _ answer => answer

theorem extends_bind (first : y.Extends x) (next : ∀ a, (g a).Extends (f a)) :
    (y >>= g).Extends (x >>= f) := by
  intro env amb r answer
  simp only [bind] at answer ⊢
  cases source : x env amb with
  | none => simp [source] at answer
  | some end₁ =>
    rw [first env amb end₁ source]
    rw [source] at answer
    obtain ⟨result, amb'⟩ := end₁
    cases result with
    | error e => exact answer
    | ok pair => exact next pair.1 pair.2 amb' r answer

theorem extends_inScope (inner : y.Extends x) : (inScope y).Extends (inScope x) := by
  intro env amb r answer
  simp only [inScope] at answer ⊢
  cases source : x env amb with
  | none => simp [source] at answer
  | some end₁ =>
    rw [inner env amb end₁ source]
    rw [source] at answer
    exact answer

variable (more : ∀ e, (ev' e).Extends (ev e))

include more

theorem extends_sequence (first : Value) (rest : List Value) :
    (sequence ev' first rest).Extends (sequence ev first rest) := by
  induction rest generalizing first with
  | nil => exact more first
  | cons next rest ih => exact extends_bind (more first) fun _ => ih next

theorem extends_arguments (args : List Value) :
    (arguments ev' args).Extends (arguments ev args) := by
  induction args with
  | nil => exact extends_refl _
  | cons e rest ih =>
    exact extends_bind (more e) fun _ => extends_bind ih fun _ => extends_refl _

theorem extends_bindings (bs : List (Bytes × Value)) :
    (bindings ev' bs).Extends (bindings ev bs) := by
  induction bs with
  | nil => exact extends_refl _
  | cons b rest ih =>
    exact extends_bind (more b.2) fun _ => extends_bind (extends_refl _) fun _ => ih

theorem extends_clauses (cs : List (Value × Value)) :
    (clauses ev' cs).Extends (clauses ev cs) := by
  induction cs with
  | nil => exact extends_refl _
  | cons c rest ih =>
    refine extends_bind (more c.1) fun v => ?_
    split
    · exact more c.2
    · exact ih

theorem extends_apply (f : Value) (args : List Value) :
    (apply ev' f args).Extends (apply ev f args) := by
  cases f with
  | lambda tag params body captured =>
    simp only [apply]
    split
    · exact extends_bind (extends_arguments more args) fun _ =>
        extends_inScope (extends_bind (extends_refl _) fun _ => more body)
    · exact extends_refl _
  | _ => exact extends_refl _

theorem extends_form (table : SyscallTable) (f : Form) :
    (form ev' table f).Extends (form ev table f) := by
  cases f with
  | value _ | lookup _ | lambda _ _ => exact extends_refl _
  | branch test yes no =>
    refine extends_bind (more test) fun v => ?_
    split
    · exact more yes
    · exact more no
  | sequence first rest => exact extends_sequence more first rest
  | define name expr => exact extends_bind (more expr) fun _ => extends_refl _
  | letIn bs first rest =>
    exact extends_inScope (extends_bind (extends_bindings more bs) fun _ =>
      extends_sequence more first rest)
  | cond cs => exact extends_clauses more cs
  | list args | primitive _ args | syscall _ args =>
    exact extends_bind (extends_arguments more args) fun _ => extends_refl _
  | apply head args => exact extends_bind (more head) fun f => extends_apply more f args

end Extension

theorem evaluate_extends (table : SyscallTable) {depth depth' : Nat} (le : depth ≤ depth')
    (e : Value) : (evaluate table depth' e).Extends (evaluate table depth e) := by
  induction depth generalizing depth' e with
  | zero =>
    intro env amb r answer
    simp [evaluate, exhausted] at answer
  | succ depth ih =>
    obtain ⟨more, rfl⟩ : ∃ k, depth' = k + 1 := ⟨depth' - 1, by omega⟩
    simp only [evaluate]
    split
    · exact extends_refl _
    · exact extends_form (ih (by omega)) table _

/-- Two answers to a program, at whatever depths, are the same. -/
theorem program_answer_unique {table : SyscallTable} {d₁ d₂ : Nat} {exprs : List Value} {env : Env}
    {amb : Ambient} {r₁ r₂ : Except Failure (Value × Env) × Ambient}
    (first : program table d₁ exprs env amb = some r₁)
    (second : program table d₂ exprs env amb = some r₂) : r₁ = r₂ := by
  have extended : ∀ {d r}, d ≤ max d₁ d₂ → program table d exprs env amb = some r →
      program table (max d₁ d₂) exprs env amb = some r := by
    intro d r le answer
    cases exprs with
    | nil => exact answer
    | cons e rest => exact extends_sequence (evaluate_extends table le) e rest env amb r answer
  have same := (extended (by omega) first).symm.trans (extended (by omega) second)
  exact Option.some.inj same

end ProcLisp.Recursive
