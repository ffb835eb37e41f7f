import ProcLisp.Proofs.Machine.Dispatches
import ProcLisp.Proofs.Machine.Recursive

/-!
# A machine that follows an evaluation

`Follows` relates a point of a machine's run, over any stack, to the answer of an evaluation: the
machine comes to return the value to that stack, fails as the evaluation fails, and goes on as long
as there is no answer. Only the bound on the stack can cut it short. On top of a restore frame the
machine may return in another environment, which that frame replaces.
-/

namespace ProcLisp

/-- The innermost frame replaces the environment. -/
def Stack.Covered (k : Stack) : Prop := ∃ env rest, k.frames = .restore env :: rest

namespace Machine

open Recursive (Ambient Eval evaluate)

/-- What the evaluation at a point uses up and writes to. -/
def ambient (c : Machine × Transcript) : Ambient := ⟨c.1.supply, c.2⟩

structure Evaluating (expr : Value) (env : Env) (k : Stack) (amb : Ambient)
    (c : Machine × Transcript) : Prop where
  control : c.1.control = .eval expr
  env : c.1.env = env
  stack : c.1.stack = k
  ambient : ambient c = amb

structure Returning (v : Value) (env : Env) (k : Stack) (amb : Ambient)
    (c : Machine × Transcript) : Prop where
  control : c.1.control = .returning
  val : c.1.val = v
  env : c.1.env = env ∨ Stack.Covered k
  stack : c.1.stack = k
  ambient : ambient c = amb

structure Failing (f : Failure) (amb : Ambient) (c : Machine × Transcript) : Prop where
  control : c.1.control = .terminated (.failed f)
  ambient : ambient c = amb

def Overflowing (cfg : Config) (c : Machine × Transcript) : Prop :=
  c.1.control = .terminated (.failed (.stackOverflow cfg.maxFrames))

/-- Some dispatches from `c` lead to a point with the property. -/
def Reaches (cfg : Config) (c : Machine × Transcript) (P : Machine × Transcript → Prop) : Prop :=
  ∃ n c', iterate cfg .solitary n c = some c' ∧ P c'

/-- The answer `r` of an evaluation over the stack `k`, as the machine gives it. Without an answer
there are at least `n` dispatches. The stack overflows only if its bound is below `room`. -/
def Follows (cfg : Config) (k : Stack) (n room : Nat) (c : Machine × Transcript)
    (r : Option (Except Failure (Value × Env) × Ambient)) : Prop :=
  (match r with
    | none => ∃ c', iterate cfg .solitary n c = some c'
    | some (.error f, amb) => Reaches cfg c (Failing f amb)
    | some (.ok (v, env), amb) => Reaches cfg c (Returning v env k amb)) ∨
  (Reaches cfg c (Overflowing cfg) ∧ cfg.maxFrames < room)

variable {cfg : Config} {k k' : Stack} {n room : Nat} {c c' : Machine × Transcript}
  {r : Option (Except Failure (Value × Env) × Ambient)} {env : Env} {amb : Ambient}

theorem Reaches.prepend {P : Machine × Transcript → Prop} {j : Nat}
    (first : iterate cfg .solitary j c = some c') (later : Reaches cfg c' P) : Reaches cfg c P := by
  obtain ⟨i, c₂, reached, holds⟩ := later
  exact ⟨j + i, c₂, by rw [iterate_add, first]; exact reached, holds⟩

/-- Fewer dispatches can be done where more can. -/
theorem iterate_fewer {j i : Nat} (le : j ≤ i) (more : iterate cfg .solitary i c = some c') :
    ∃ c₁, iterate cfg .solitary j c = some c₁ := by
  rw [show i = j + (i - j) by omega, iterate_add] at more
  obtain ⟨c₁, first, -⟩ := Option.bind_eq_some_iff.mp more
  exact ⟨c₁, first⟩

theorem Follows.prepend {j : Nat} (first : iterate cfg .solitary j c = some c')
    (later : Follows cfg k n room c' r) : Follows cfg k (j + n) room c r := by
  rcases later with answer | ⟨overflow, bound⟩
  · refine .inl ?_
    match r with
    | none =>
      obtain ⟨c₂, reached⟩ := answer
      exact ⟨c₂, by rw [iterate_add, first]; exact reached⟩
    | some (.error f, amb) => exact answer.prepend first
    | some (.ok (v, env), amb) => exact answer.prepend first
  · exact .inr ⟨overflow.prepend first, bound⟩

theorem Follows.fewer {j room' : Nat} (le : j ≤ n) (room_le : room ≤ room')
    (h : Follows cfg k n room c r) : Follows cfg k j room' c r := by
  rcases h with answer | ⟨overflow, bound⟩
  · refine .inl ?_
    match r with
    | none => exact iterate_fewer le answer.choose_spec
    | some (.error f, amb) => exact answer
    | some (.ok (v, env), amb) => exact answer
  · exact .inr ⟨overflow, by omega⟩

/-- What is evaluated after `x` starts where the machine returns the value of `x`. -/
theorem Follows.bind {x : Eval Value} {f : Value → Eval Value}
    (first : Follows cfg k' n room c (x env amb))
    (next : ∀ v env' amb' c', Returning v env' k' amb' c' →
      Follows cfg k n room c' (f v env' amb')) :
    Follows cfg k n room c ((x >>= f) env amb) := by
  simp only [Bind.bind]
  rcases first with answer | overflow
  · match source : x env amb with
    | none =>
      rw [source] at answer
      exact .inl answer
    | some (.error e, amb') =>
      rw [source] at answer
      exact .inl answer
    | some (.ok (v, env'), amb') =>
      rw [source] at answer
      obtain ⟨j, c', reached, returning⟩ := answer
      exact ((next v env' amb' c' returning).prepend reached).fewer (by omega) (by omega)
  · exact .inr overflow

/-! ### Single dispatches -/

/-- The machine has the stack `k` and goes on numbering lambdas as `amb` says. -/
structure Stands (m : Machine) (k : Stack) (amb : Ambient) : Prop where
  stack : m.stack = k
  supply : m.supply = amb.supply

variable {m origin : Machine} {v e : Value} {f : Failure} {frame : Frame}

theorem land_eval (stands : m.Stands k amb) (origin : Machine) (e : Value) (env : Env) :
    Evaluating e env k amb (origin.land (quiet amb.transcript (.ok (m.eval e env)))) := by
  refine ⟨rfl, rfl, stands.stack, ?_⟩
  simp [ambient, land, after, quiet, eval, stands.supply]

theorem land_ret (stands : m.Stands k amb) (origin : Machine) (v : Value) (env : Env) :
    Returning v env k amb (origin.land (quiet amb.transcript (.ok (m.ret v env)))) := by
  refine ⟨rfl, rfl, .inl rfl, stands.stack, ?_⟩
  simp [ambient, land, after, quiet, ret, stands.supply]

theorem land_error (supply : origin.supply = amb.supply) (f : Failure) :
    Failing f amb (origin.land (quiet amb.transcript (.error f))) := by
  refine ⟨rfl, ?_⟩
  simp [ambient, land, after, quiet, fail, supply]

theorem Follows.returns (h : Returning v env k amb c) :
    Follows cfg k n room c (some (.ok (v, env), amb)) :=
  .inl ⟨0, c, rfl, h⟩

theorem Follows.fails (h : Failing f amb c) : Follows cfg k n room c (some (.error f, amb)) :=
  .inl ⟨0, c, rfl, h⟩

theorem pop?_push (k : Stack) (frame : Frame) : (k.push frame).pop? = some (frame, k) := by
  cases k
  simp [Stack.push, Stack.pop?]

theorem not_covered_push (plain : frame.isRestore = false) : ¬ (k.push frame).Covered := by
  rintro ⟨saved, rest, same⟩
  simp only [Stack.push, List.cons.injEq] at same
  rw [same.1] at plain
  simp [Frame.isRestore] at plain

/-- A value that is returned to a frame, other than one that restores, is handed to it. -/
theorem Follows.resume (returning : Returning v env (k.push frame) amb c)
    (plain : frame.isRestore = false)
    (next : ∀ m : Machine, m.Stands k amb → c.1.supply = amb.supply →
      Follows cfg k n room
        (c.1.land (m.resumeFrame cfg .solitary frame v env amb.transcript)) r) :
    Follows cfg k n room c r := by
  obtain ⟨m, t⟩ := c
  obtain ⟨control, val, envs, stack, same⟩ := returning
  have env_eq : m.env = env := envs.resolve_right (not_covered_push plain)
  have supply : m.supply = amb.supply := by rw [← same]; rfl
  have transcript : t = amb.transcript := by rw [← same]; rfl
  have step : iterate cfg .solitary 1 (m, t) =
      some (m.land ({ m with stack := k }.resumeFrame cfg .solitary frame v env
        amb.transcript)) := by
    simp only at control val stack
    simp [iterate_one, advance?, next?, control, stack, pop?_push, val, env_eq, transcript]
  have later := (next { m with stack := k } ⟨rfl, supply⟩ supply).prepend step
  exact later.fewer (by omega) (Nat.le_refl _)

/-! ### Scopes -/

/-- A restore frame brings back the environment that it holds. -/
theorem Returning.restore {saved env' : Env}
    (returning : Returning v env' (k.push (.restore saved)) amb c) :
    Reaches cfg c (Returning v saved k amb) := by
  obtain ⟨m, t⟩ := c
  obtain ⟨control, val, -, stack, same⟩ := returning
  have supply : m.supply = amb.supply := by rw [← same]; rfl
  have transcript : t = amb.transcript := by rw [← same]; rfl
  have stands : Stands { m with stack := k } k amb := ⟨rfl, supply⟩
  refine ⟨1, _, ?_, land_ret stands m v saved⟩
  simp only at control val stack
  simp [iterate_one, advance?, next?, control, stack, pop?_push, val, transcript, resumeFrame]

/-- An evaluation in a scope of its own returns to the stack below the scope, in the environment
from before. -/
theorem Follows.inScope {x : Eval Value} {env₀ : Env}
    (scope : k' = k ∧ k.Covered ∨ k' = k.push (.restore env₀))
    (inner : Follows cfg k' n room c (x env₀ amb)) :
    Follows cfg k n room c (x.inScope env₀ amb) := by
  rcases inner with answer | overflow
  · simp only [Eval.inScope]
    rcases source : x env₀ amb with _ | ⟨⟨e⟩ | ⟨v, env'⟩, amb'⟩
    · rw [source] at answer
      exact .inl answer
    · rw [source] at answer
      exact .inl answer
    · rw [source] at answer
      obtain ⟨j, c', reached, returning⟩ := answer
      rcases scope with ⟨rfl, covered⟩ | rfl
      · exact .inl ⟨j, c', reached, { returning with env := .inr covered }⟩
      · exact .inl (returning.restore.prepend reached)
  · exact .inr overflow

end Machine
end ProcLisp
