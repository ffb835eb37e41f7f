import ProcLisp.Machine.Eval

/-!
# Runs as sequences of dispatches

`iterate` performs a number of dispatches. A run performs some of them and then either yields or
has come to a point where there is none left; `complete` only ends at such a point. The order of
dispatches does not depend on budgets, so the point is the same for all of them.
-/

namespace ProcLisp.Machine

variable {σ : Type} {cfg : Config} {world : World σ}

/-- Where a dispatch leads to. -/
def land (m : Machine) (d : Dispatch σ) : Machine × σ := (m.after d, d.state)

/-- One dispatch, where there is one to do. -/
def advance? (cfg : Config) (world : World σ) (c : Machine × σ) : Option (Machine × σ) :=
  (c.1.next? cfg world c.2).map c.1.land

/-- So many dispatches, where there are as many to do. -/
def iterate (cfg : Config) (world : World σ) : Nat → Machine × σ → Option (Machine × σ)
  | 0, c => some c
  | n + 1, c => (advance? cfg world c).bind (iterate cfg world n)

/-- The end of a run at a point where no dispatch is left to do. -/
def stop (c : Machine × σ) : Progress σ :=
  match c.1.halted? with
  | some (status, m) => ⟨status, m, c.2⟩
  | none => ⟨.done, { c.1 with control := .done }, c.2⟩

theorem iterate_add (cfg : Config) (world : World σ) (a b : Nat) (c : Machine × σ) :
    iterate cfg world (a + b) c = (iterate cfg world a c).bind (iterate cfg world b) := by
  induction a generalizing c with
  | zero => simp [iterate]
  | succ a ih =>
    rw [show a + 1 + b = (a + b) + 1 by omega, iterate, iterate, Option.bind_assoc]
    congr 1
    funext c'
    exact ih c'

theorem iterate_one (c : Machine × σ) : iterate cfg world 1 c = advance? cfg world c := by
  simp [iterate]

/-- A point with nothing left to do is the only one that so many dispatches lead to. -/
theorem iterate_stuck {a b : Nat} {c c₁ c₂ : Machine × σ}
    (first : iterate cfg world a c = some c₁) (stuck : advance? cfg world c₁ = none)
    (second : iterate cfg world b c = some c₂) :
    b ≤ a ∧ iterate cfg world (a - b) c₂ = some c₁ := by
  have bound : b ≤ a := by
    by_cases le : b ≤ a
    · exact le
    obtain ⟨k, rfl⟩ : ∃ k, b = a + (1 + k) := ⟨b - a - 1, by omega⟩
    rw [iterate_add, first, Option.bind_some, iterate_add, iterate_one, stuck] at second
    simp at second
  refine ⟨bound, ?_⟩
  have split := iterate_add cfg world b (a - b) c
  rw [Nat.add_sub_cancel' bound, first, second, Option.bind_some] at split
  exact split.symm

theorem stuck_unique {a b : Nat} {c c₁ c₂ : Machine × σ}
    (first : iterate cfg world a c = some c₁) (stuck₁ : advance? cfg world c₁ = none)
    (second : iterate cfg world b c = some c₂) (stuck₂ : advance? cfg world c₂ = none) :
    c₁ = c₂ := by
  have ⟨le₁, rest⟩ := iterate_stuck first stuck₁ second
  have ⟨le₂, _⟩ := iterate_stuck second stuck₂ first
  rw [show a - b = 0 by omega, iterate] at rest
  exact (Option.some.inj rest).symm

/-! ### Machines that do not go on -/

theorem next?_of_halted {m : Machine} {s : σ} (halted : m.halted?.isSome) :
    m.next? cfg world s = none := by
  unfold halted? at halted
  unfold next?
  split at halted <;> simp_all

theorem advance?_eq_none {c : Machine × σ} :
    advance? cfg world c = none ↔ c.1.next? cfg world c.2 = none := by
  simp [advance?]

/-! ### Runs -/

theorem runFor_zero (fuel : Nat) (m : Machine) (s : σ) :
    runFor cfg world fuel 0 m s = m.pause s := by
  cases fuel <;> simp [runFor]

theorem runFor_halted {m : Machine} (halted : m.halted?.isSome) (fuel budget : Nat) (s : σ) :
    runFor cfg world fuel budget m s = m.pause s := by
  cases fuel <;> simp [runFor, halted]

theorem runFor_none {m : Machine} {s : σ} (going : m.halted? = none)
    (last : m.next? cfg world s = none) (fuel budget : Nat) :
    runFor cfg world (fuel + 1) (budget + 1) m s = stop (m, s) := by
  simp [runFor, going, last, stop]

theorem runFor_some {m : Machine} {s : σ} {d : Dispatch σ} (next : m.next? cfg world s = some d)
    (fuel budget : Nat) :
    runFor cfg world (fuel + 1) (budget + 1) m s =
      runFor cfg world fuel (budget - d.charge) (m.after d) d.state := by
  have going : m.halted?.isSome = false := by
    cases halted : m.halted?.isSome with
    | false => rfl
    | true =>
      rw [next?_of_halted halted] at next
      simp at next
  simp [runFor, going, next]

/-- Enough fuel is as good as any. -/
theorem runFor_eq_run (budget : Nat) {fuel : Nat} (enough : budget ≤ fuel) (m : Machine) (s : σ) :
    runFor cfg world fuel budget m s = m.run cfg world budget s := by
  induction budget using Nat.strongRecOn generalizing fuel m s with
  | _ budget ih =>
    cases budget with
    | zero => rw [run, runFor_zero, runFor_zero]
    | succ budget =>
      obtain ⟨fuel, rfl⟩ : ∃ k, fuel = k + 1 := ⟨fuel - 1, by omega⟩
      cases halted : m.halted? with
      | some h =>
        rw [run, runFor_halted (by simp [halted]), runFor_halted (by simp [halted])]
      | none =>
        cases next : m.next? cfg world s with
        | none => rw [run, runFor_none halted next, runFor_none halted next]
        | some d =>
          rw [run, runFor_some next, runFor_some next, ih (budget - d.charge) (by omega) (by omega),
            ih (budget - d.charge) (by omega) (by omega)]

theorem run_some {m : Machine} {s : σ} {d : Dispatch σ} (next : m.next? cfg world s = some d)
    (budget : Nat) :
    m.run cfg world (budget + 1) s = (m.after d).run cfg world (budget - d.charge) d.state := by
  rw [run, runFor_some next, runFor_eq_run _ (by omega)]

theorem pause_of_halted {m : Machine} (halted : m.halted?.isSome) (s : σ) :
    m.pause s = stop (m, s) := by
  unfold pause stop
  cases h : m.halted? with
  | none => simp [h] at halted
  | some _ => rfl

theorem pause_of_going {m : Machine} (going : m.halted? = none) (s : σ) :
    m.pause s = ⟨.yielded, m, s⟩ := by
  simp [pause, going]

theorem stop_status (c : Machine × σ) : (stop c).status ≠ .yielded := by
  unfold stop halted?
  cases c.1.control <;> simp

/-- A run performs some dispatches and yields, or stops where there is none left. -/
theorem run_cases (cfg : Config) (world : World σ) (budget : Nat) (m : Machine) (s : σ) :
    ∃ n c, iterate cfg world n (m, s) = some c ∧
      ((m.run cfg world budget s = ⟨.yielded, c.1, c.2⟩ ∧ c.1.halted? = none ∧
          (0 < budget → 0 < n)) ∨
        (m.run cfg world budget s = stop c ∧ advance? cfg world c = none)) := by
  induction budget using Nat.strongRecOn generalizing m s with
  | _ budget ih =>
    cases halted : m.halted? with
    | some h =>
      have halts : m.halted?.isSome := by simp [halted]
      refine ⟨0, (m, s), rfl, .inr ⟨?_, advance?_eq_none.mpr (next?_of_halted halts)⟩⟩
      rw [run, runFor_halted halts, pause_of_halted halts]
    | none =>
      cases budget with
      | zero =>
        refine ⟨0, (m, s), rfl, .inl ⟨?_, halted, by simp⟩⟩
        rw [run, runFor_zero, pause_of_going halted]
      | succ budget =>
        cases next : m.next? cfg world s with
        | none =>
          refine ⟨0, (m, s), rfl, .inr ⟨?_, advance?_eq_none.mpr next⟩⟩
          rw [run, runFor_none halted next]
        | some d =>
          obtain ⟨n, c, reached, ended⟩ := ih (budget - d.charge) (by omega) (m.after d) d.state
          refine ⟨n + 1, c, ?_, ?_⟩
          · simpa [iterate, advance?, next, land] using reached
          · rw [run_some next]
            exact ended.imp (fun h => ⟨h.1, h.2.1, fun _ => by omega⟩) id

/-! ### Runs to the end -/

theorem complete_stop {rounds : Nat} {m : Machine} {s : σ}
    (ended : (m.complete cfg world rounds s).status ≠ .yielded) :
    ∃ n c, iterate cfg world n (m, s) = some c ∧ advance? cfg world c = none ∧
      m.complete cfg world rounds s = stop c := by
  induction rounds generalizing m s with
  | zero =>
    rw [complete] at ended ⊢
    cases halted : m.halted? with
    | none => simp [pause_of_going halted] at ended
    | some h =>
      have halts : m.halted?.isSome := by simp [halted]
      exact ⟨0, (m, s), rfl, advance?_eq_none.mpr (next?_of_halted halts), pause_of_halted halts s⟩
  | succ rounds ih =>
    obtain ⟨n, c, reached, outcome⟩ := run_cases cfg world round m s
    rcases outcome with ⟨same, -, -⟩ | ⟨same, stuck⟩
    · simp only [complete, same, if_true] at ended ⊢
      obtain ⟨k, c', later, stuck, finished⟩ := ih ended
      exact ⟨n + k, c', by rw [iterate_add, reached]; exact later, stuck, finished⟩
    · refine ⟨n, c, reached, stuck, ?_⟩
      simp only [complete, same, if_neg (stop_status c)]

theorem complete_of_stuck {n : Nat} {m : Machine} {s : σ} {c : Machine × σ}
    (reached : iterate cfg world n (m, s) = some c) (stuck : advance? cfg world c = none) :
    ∃ rounds, m.complete cfg world rounds s = stop c := by
  induction n using Nat.strongRecOn generalizing m s with
  | _ n ih =>
    obtain ⟨k, c', first, outcome⟩ := run_cases cfg world round m s
    rcases outcome with ⟨same, -, moved⟩ | ⟨same, stuck'⟩
    · have ⟨le, rest⟩ := iterate_stuck reached stuck first
      have positive := moved (by decide)
      obtain ⟨rounds, finished⟩ := ih (n - k) (by omega) rest
      refine ⟨rounds + 1, ?_⟩
      simp only [complete, same, if_true, finished]
    · refine ⟨1, ?_⟩
      rw [stuck_unique reached stuck first stuck']
      simp only [complete, same, if_neg (stop_status c')]

end ProcLisp.Machine
