import ProcLisp.Proofs.Machine.Causes

/-!
# Evaluation without primitives

As long as a machine hands nothing to a process primitive, its dispatches are the same in all
worlds, printing apart. Such an evaluation never waits and never exits: it finishes, or it fails.
-/

namespace ProcLisp

variable {σ τ : Type}

/-- What a dispatch comes to, the state apart. -/
def Dispatch.result (d : Dispatch σ) : Nat × Except Failure Machine := (d.charge, d.machine)

namespace Machine

/-- The next dispatch hands arguments to a primitive. -/
def performs (cfg : Config) (m : Machine) : Bool :=
  match m.control with
  | .eval expr => match Form.read cfg.table expr with
    | .ok (.primitive _ []) => true
    | _ => false
  | .returning => match m.stack.frames with
    | .arguments (.primitive _) _ [] :: _ => true
    | _ => false
  | _ => false

/-- The evaluation that starts with `m` never gets to a primitive. -/
def Independent (cfg : Config) (m : Machine) : Prop :=
  ∀ n c, iterate cfg .solitary n (m, []) = some c → c.1.performs cfg = false

variable {cfg : Config} {m : Machine} {env : Env}

/-- Follows an evaluation to its end, and says whether it gets there without primitives. -/
def checkIndependent (cfg : Config) : (fuel : Nat) → Machine × Transcript → Bool
  | 0, _ => false
  | fuel + 1, c => !c.1.performs cfg && match advance? cfg .solitary c with
    | none => true
    | some c' => checkIndependent cfg fuel c'

theorem independent_of_check (fuel : Nat) (checked : checkIndependent cfg fuel (m, [])) :
    Independent cfg m := by
  have general : ∀ n c c', checkIndependent cfg fuel c → iterate cfg .solitary n c = some c' →
      c'.1.performs cfg = false := by
    clear checked
    induction fuel with
    | zero => exact fun n c c' checked => nomatch checked
    | succ fuel ih =>
      intro n c c' checked reached
      simp only [checkIndependent, Bool.and_eq_true, Bool.not_eq_true'] at checked
      cases n with
      | zero =>
        obtain rfl := Option.some.inj reached
        exact checked.1
      | succ n =>
        obtain ⟨c₁, first, rest⟩ := Option.bind_eq_some_iff.mp reached
        rw [first] at checked
        exact ih n c₁ c' checked.2 rest
  intro n c reached
  exact general n _ c checked reached

section Worlds

variable (here : World σ) (there : World τ) (s : σ) (t : τ)

theorem dispatch_result {target : Target} (other : ∀ p, target ≠ .primitive p) (args : List Value) :
    (m.dispatch cfg here target args env s).result =
      (m.dispatch cfg there target args env t).result := by
  cases target with
  | list => rfl
  | syscall name =>
    simp only [dispatch]
    split <;> rfl
  | primitive p => exact absurd rfl (other p)
  | apply params body captured => rfl

theorem evalArgs_result {target : Target} {args : List Value}
    (other : ∀ p, target = .primitive p → args ≠ []) :
    (m.evalArgs cfg here target args env s).result =
      (m.evalArgs cfg there target args env t).result := by
  cases args with
  | nil => exact dispatch_result here there s t (fun p same => other p same rfl) []
  | cons e pending => rfl

theorem evalForm_result {form : Form} (other : ∀ p, form ≠ .primitive p []) :
    (m.evalForm cfg here form env s).result = (m.evalForm cfg there form env t).result := by
  cases form with
  | cond clauses => cases clauses <;> rfl
  | list items => exact evalArgs_result here there s t nofun
  | primitive p args =>
    refine evalArgs_result here there s t ?_
    rintro _ ⟨⟩ rfl
    exact other p rfl
  | syscall name args => exact evalArgs_result here there s t nofun
  | _ => rfl

theorem resumeFrame_result {k : Frame} (other : ∀ p done, k ≠ .arguments (.primitive p) done [])
    (v : Value) :
    (m.resumeFrame cfg here k v env s).result = (m.resumeFrame cfg there k v env t).result := by
  cases k with
  | binding name others first rest => cases others <;> rfl
  | clause body others =>
    simp only [resumeFrame]
    split
    · rfl
    · cases others <;> rfl
  | arguments target done pending =>
    cases pending with
    | nil =>
      refine dispatch_result here there s t ?_ _
      rintro p rfl
      exact other p done rfl
    | cons e pending => rfl
  | callee args =>
    simp only [resumeFrame]
    split
    · split
      · refine evalArgs_result here there s t ?_
        rintro _ ⟨⟩
      · rfl
    · rfl
  | _ => rfl

theorem next?_result (free : m.performs cfg = false) :
    (m.next? cfg here s).map Dispatch.result = (m.next? cfg there t).map Dispatch.result := by
  unfold performs at free
  unfold next?
  split
  · rename_i expr evaluating
    simp only [evaluating] at free
    refine congrArg some ?_
    unfold evalStep
    cases read : Form.read cfg.table expr with
    | error f => rfl
    | ok form =>
      refine evalForm_result here there s t ?_
      rintro p rfl
      simp [read] at free
  · rename_i returning
    simp only [returning] at free
    split
    · rename_i k rest popped
      refine congrArg some (resumeFrame_result here there s t ?_ _)
      rintro p done rfl
      simp [frames_of_pop popped] at free
    · rfl
  · rfl

end Worlds

theorem after_congr {d : Dispatch σ} {e : Dispatch τ} (same : d.result = e.result) :
    m.after d = m.after e := by
  obtain ⟨charge, machine⟩ := Prod.mk.inj same
  simp only [after, charge, machine]

/-! ### Points of an evaluation -/

/-- The evaluation from `m` comes to `m'` after `n` dispatches. -/
def Passes (cfg : Config) (m : Machine) (n : Nat) (m' : Machine) : Prop :=
  ∃ t, iterate cfg .solitary n (m, []) = some (m', t)

variable {world : World σ} {n k : Nat} {m' : Machine} {s : σ} {c : Machine × σ}

theorem Passes.advance (free : Independent cfg m) (passes : Passes cfg m n m') (world : World σ)
    (s : σ) :
    (∀ {c}, advance? cfg world (m', s) = some c → Passes cfg m (n + 1) c.1) ∧
      (advance? cfg world (m', s) = none →
        ∃ t, iterate cfg .solitary n (m, []) = some (m', t) ∧
          advance? cfg .solitary (m', t) = none) := by
  obtain ⟨t, reached⟩ := passes
  have same := next?_result world .solitary s t (free n _ reached)
  constructor
  · intro c moved
    obtain ⟨d, found, rfl⟩ := Option.map_eq_some_iff.mp moved
    simp only at found
    rw [found, Option.map_some] at same
    obtain ⟨e, found', result⟩ := Option.map_eq_some_iff.mp same.symm
    refine ⟨e.state, ?_⟩
    rw [iterate_add, reached, Option.bind_some, iterate_one, advance?, found']
    simp [land, after_congr result]
  · intro stuck
    refine ⟨t, reached, ?_⟩
    rw [advance?_eq_none] at stuck ⊢
    simp only at stuck ⊢
    rw [stuck, Option.map_none] at same
    exact Option.map_eq_none_iff.mp same.symm

theorem Passes.iterate (free : Independent cfg m) (passes : Passes cfg m n m')
    (reached : iterate cfg world k (m', s) = some c) : Passes cfg m (n + k) c.1 := by
  induction k generalizing n m' s with
  | zero =>
    obtain rfl := Option.some.inj reached
    exact passes
  | succ k ih =>
    obtain ⟨c₁, first, rest⟩ := Option.bind_eq_some_iff.mp reached
    have moved := (passes.advance free world s).1 first
    rw [show n + (k + 1) = n + 1 + k by omega]
    exact ih moved rest

/-- Along the way the machine goes on, with no end of a function on its stack, or it has failed. -/
def Sober (m : Machine) : Prop :=
  m.halted? = none ∧ .terminate ∉ m.stack.frames ∨ ∃ f, m.control = .terminated (.failed f)

theorem performs_of_asks (asks : m.Asks cfg) : m.performs cfg := by
  obtain ⟨expr, control, read⟩ := asks
  simp [performs, control, read]

/-- Without primitives only the end of a function makes a machine exit. -/
theorem terminate_of_exits {reason : Value} (exits : m.Exits reason)
    (free : m.performs cfg = false) : .terminate ∈ m.stack.frames := by
  obtain ⟨returning, k, below, frames, cause⟩ := exits
  cases cause with
  | returned => simp [frames]
  | terminated => simp [performs, returning, frames] at free

theorem Sober.advance {c c' : Machine × Transcript} (sober : Sober c.1)
    (free : c.1.performs cfg = false) (moved : advance? cfg .solitary c = some c') :
    Sober c'.1 := by
  obtain ⟨d, found, rfl⟩ := Option.map_eq_some_iff.mp moved
  rcases sober with ⟨going, inner⟩ | ⟨f, control⟩
  · cases result : d.machine with
    | error f => exact .inr ⟨f, after_control_error result⟩
    | ok next =>
      obtain ⟨control, stack⟩ := after_control_ok (m := c.1) result
      cases comes_next found result with
      | on continues =>
        refine .inl ⟨halted?_congr control continues.going, fun member => ?_⟩
        change .terminate ∈ (c.1.after d).stack.frames at member
        rw [stack] at member
        exact inner (continues.below member)
      | waits asks => simp [performs_of_asks asks] at free
      | out exits => exact absurd (terminate_of_exits exits free) inner
  · simp [next?, control] at found

theorem Passes.sober (free : Independent cfg m) (start : Sober m) (passes : Passes cfg m n m') :
    Sober m' := by
  induction n generalizing m' with
  | zero =>
    obtain ⟨t, reached⟩ := passes
    obtain ⟨rfl, -⟩ := Prod.mk.inj (Option.some.inj reached)
    exact start
  | succ n ih =>
    obtain ⟨t, reached⟩ := passes
    rw [iterate_add] at reached
    obtain ⟨c, before, last⟩ := Option.bind_eq_some_iff.mp reached
    rw [iterate_one] at last
    exact (ih ⟨c.2, before⟩).advance (free n c before) last

theorem sober_load (exprs : List Value) (env : Env) (supply : Supply) :
    Sober (({ supply } : Machine).load exprs env) := by
  left
  unfold load
  split
  · exact ⟨rfl, by simp [Stack.empty]⟩
  · exact ⟨rfl, by simp [Stack.empty]⟩
  · exact ⟨rfl, by simp [Stack.empty, Stack.push]⟩

end Machine
end ProcLisp
