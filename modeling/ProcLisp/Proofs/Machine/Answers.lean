import ProcLisp.Proofs.Machine.Correspondence

/-!
# Answers of evaluations

What `evalProgram` ends with is the answer of the bounded recursion, no more and no less. So two
programs can be compared by their answers, without their machines.
-/

namespace ProcLisp

open Machine (Config)
open Recursive (Ambient Eval)

/-- An answer of the bounded recursion, at some depth. -/
def Bounded.Answers (cfg : Config) (exprs : List Value) (env : Env) (amb : Ambient)
    (r : Except Failure (Value × Env) × Ambient) : Prop :=
  ∃ n, Bounded.program cfg n exprs env amb = some r

/-- Answers at different depths are the same. -/
theorem Bounded.Answers.unique {cfg : Config} {exprs : List Value} {env : Env} {amb : Ambient}
    {r₁ r₂ : Except Failure (Value × Env) × Ambient} (first : Bounded.Answers cfg exprs env amb r₁)
    (second : Bounded.Answers cfg exprs env amb r₂) : r₁ = r₂ := by
  obtain ⟨n₁, answer₁⟩ := first
  obtain ⟨n₂, answer₂⟩ := second
  have deeper : ∀ {n r}, n ≤ max n₁ n₂ → Bounded.program cfg n exprs env amb = some r →
      Bounded.program cfg (max n₁ n₂) exprs env amb = some r := by
    intro n r le answer
    have refines : (Bounded.program cfg (max n₁ n₂) exprs).Refines (· = none)
        (Bounded.program cfg n exprs) := Bounded.program_refines cfg (by rfl) le exprs
    exact Bounded.answer_of_refines refines answer fun _ _ => nofun
  have same := (deeper (by omega) answer₁).symm.trans (deeper (by omega) answer₂)
  exact Option.some.inj same

namespace Machine

variable {cfg : Config} {exprs : List Value} {env : Env} {supply : Supply}

theorem answer_of_evalProgram {rounds : Nat} {ev : Evaluation}
    (ended : evalProgram cfg rounds exprs env supply = some ev) :
    ∃ r, Bounded.Answers cfg exprs env ⟨supply, []⟩ r ∧ ev.Gives r := by
  obtain ⟨j, c, reached, stuck, concluded⟩ := stuck_of_evalProgram ended
  have follows := exact_program cfg (j + 1) exprs env supply
  -- at a depth beyond the number of dispatches there must be an answer
  match answer : Bounded.program cfg (j + 1) exprs env ⟨supply, []⟩ with
  | some r =>
    rw [answer] at follows
    obtain ⟨i, c', ev', reached', stuck', concluded', gives⟩ := follows.settles
    rw [stuck_unique reached stuck reached' stuck', concluded'] at concluded
    obtain rfl := Option.some.inj concluded
    exact ⟨r, ⟨j + 1, answer⟩, gives.resolve_right fun none => Nat.not_lt_zero _ none.2⟩
  | none =>
    rw [answer] at follows
    rcases follows with ⟨c', further⟩ | ⟨-, none⟩
    · have := (iterate_stuck reached stuck further).1
      omega
    · cases none

theorem evalProgram_of_answer {r : Except Failure (Value × Env) × Ambient}
    (answers : Bounded.Answers cfg exprs env ⟨supply, []⟩ r) :
    ∃ rounds ev, evalProgram cfg rounds exprs env supply = some ev ∧ ev.Gives r := by
  obtain ⟨n, answer⟩ := answers
  have follows := exact_program cfg n exprs env supply
  rw [answer] at follows
  obtain ⟨j, c, ev, reached, stuck, concluded, gives⟩ := follows.settles
  obtain ⟨rounds, ended⟩ := evalProgram_of_stuck reached stuck concluded
  exact ⟨rounds, ev, ended, gives.resolve_right fun none => Nat.not_lt_zero _ none.2⟩

end Machine

/-! ### Programs that end alike -/

/-- The same outcome, the same output, and lambdas with the same tags. -/
structure Evaluation.SameAs (a b : Evaluation) : Prop where
  outcome : a.outcome = b.outcome
  transcript : a.transcript = b.transcript
  supply : a.supply = b.supply

theorem Evaluation.Gives.same {a b : Evaluation} {r : Except Failure (Value × Env) × Ambient}
    (first : a.Gives r) (second : b.Gives r) : a.SameAs b :=
  ⟨first.1.trans second.1.symm, first.2.1.trans second.2.1.symm, first.2.2.trans second.2.2.symm⟩

/-- What the first program comes to, so does the second. -/
def EndsAs (cfg : Config) (exprs exprs' : List Value) (env : Env) (supply : Supply) : Prop :=
  ∀ rounds ev, evalProgram cfg rounds exprs env supply = some ev →
    ∃ rounds' ev', evalProgram cfg rounds' exprs' env supply = some ev' ∧ ev'.SameAs ev

/-- Both programs come to an end, alike, or neither does. -/
def EndAlike (cfg : Config) (exprs exprs' : List Value) (env : Env) (supply : Supply) : Prop :=
  EndsAs cfg exprs exprs' env supply ∧ EndsAs cfg exprs' exprs env supply

theorem endsAs_of_answers {cfg : Config} {exprs exprs' : List Value} {env : Env} {supply : Supply}
    (kept : ∀ {r}, Bounded.Answers cfg exprs env ⟨supply, []⟩ r →
      Bounded.Answers cfg exprs' env ⟨supply, []⟩ r) :
    EndsAs cfg exprs exprs' env supply := by
  intro rounds ev ended
  obtain ⟨r, answers, gives⟩ := Machine.answer_of_evalProgram ended
  obtain ⟨rounds', ev', ended', gives'⟩ := Machine.evalProgram_of_answer (kept answers)
  exact ⟨rounds', ev', ended', gives'.same gives⟩

/-! ### Successes -/

namespace Bounded

open Recursive.Eval

variable {α β : Type} {cfg : Config} {env env' : Env} {amb amb' : Ambient}

theorem ok_of_bind {x : Eval α} {f : α → Eval β} {b : β}
    (answer : (x >>= f) env amb = some (.ok (b, env'), amb')) :
    ∃ a env₁ amb₁, x env amb = some (.ok (a, env₁), amb₁) ∧
      f a env₁ amb₁ = some (.ok (b, env'), amb') := by
  simp only [Bind.bind] at answer
  rcases source : x env amb with _ | ⟨⟨e⟩ | ⟨a, env₁⟩, amb₁⟩
  · rw [source] at answer
    cases answer
  · rw [source] at answer
    cases answer
  · rw [source] at answer
    exact ⟨a, env₁, amb₁, rfl, answer⟩

theorem bind_of_ok {x : Eval α} {a : α} (first : x env amb = some (.ok (a, env'), amb'))
    (f : α → Eval β) : (x >>= f) env amb = f a env' amb' := by
  simp only [Bind.bind, first]

/-- After a scope the environment is the one from before. -/
theorem env_of_inScope {x : Eval α} {a : α}
    (answer : inScope x env amb = some (.ok (a, env'), amb')) : env' = env := by
  simp only [inScope] at answer
  split at answer
  · cases answer
  · cases answer
  · cases answer
    rfl

theorem env_of_enclosed {base : Footing} {x : Footing → Eval α} {a : α}
    (answer : enclosed cfg base x env amb = some (.ok (a, env'), amb')) : env' = env := by
  unfold enclosed at answer
  split at answer
  · exact env_of_inScope answer
  split at answer
  · exact env_of_inScope answer
  · cases answer

end Bounded
end ProcLisp
