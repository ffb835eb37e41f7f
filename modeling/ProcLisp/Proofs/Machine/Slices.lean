import ProcLisp.Proofs.Machine.Effects

/-!
# Cutting a run into slices

A run that yields has used up its budget, and what the charge of its last syscall took on top. It
can be continued as if it had been one run with all these reductions.
-/

namespace ProcLisp.Machine

variable {σ : Type} {cfg : Config} {world : World σ}

theorem after_reductions (m : Machine) (d : Dispatch σ) :
    (m.after d).reductions = m.reductions + (1 + d.charge).toUInt64 := by
  simp [after, Nat.toUInt64, UInt64.ofNat_add, UInt64.add_assoc]

/-- What a run that yields has used up: less than the budget and one charge together, and exactly
what has to be added to the budget of a run that goes on from there. -/
theorem run_yields {budget : Nat} {m : Machine} {s : σ}
    (yielded : (m.run cfg world budget s).status = .yielded) :
    ∃ used, (m.run cfg world budget s).machine.reductions = m.reductions + used.toUInt64 ∧
      used < budget + UInt64.size / 2 ∧ (budget = 0 → used = 0) ∧
      ∀ extra, (m.run cfg world budget s).machine.run cfg world extra
        (m.run cfg world budget s).state = m.run cfg world (used + extra) s := by
  induction budget using Nat.strongRecOn generalizing m s with
  | _ budget ih =>
    cases halted : m.halted? with
    | some h =>
      have halts : m.halted?.isSome := by simp [halted]
      rw [run, runFor_halted halts, pause_of_halted halts] at yielded
      exact absurd yielded (stop_status _)
    | none =>
      cases budget with
      | zero =>
        have same : m.run cfg world 0 s = ⟨.yielded, m, s⟩ := by
          rw [run, runFor_zero, pause_of_going halted]
        rw [same]
        exact ⟨0, by simp, by decide, fun _ => rfl, fun extra => by rw [Nat.zero_add]⟩
      | succ budget =>
        cases next : m.next? cfg world s with
        | none =>
          rw [run, runFor_none halted next] at yielded
          exact absurd yielded (stop_status _)
        | some d =>
          rw [run_some next] at yielded ⊢
          obtain ⟨used, counted, bound, free, goesOn⟩ :=
            ih (budget - d.charge) (by omega) yielded
          have charge := charge_lt next
          refine ⟨used + (1 + d.charge), ?_, ?_, by omega, ?_⟩
          · rw [counted, after_reductions]
            simp only [Nat.toUInt64, UInt64.ofNat_add, UInt64.add_assoc]
            rw [UInt64.add_comm (UInt64.ofNat used), UInt64.add_assoc]
          · -- once the budget is gone nothing more is used up
            by_cases gone : budget - d.charge = 0
            · have := free gone
              omega
            · omega
          · intro extra
            rw [goesOn extra,
              show used + (1 + d.charge) + extra = used + d.charge + extra + 1 by omega,
              run_some next, show used + d.charge + extra - d.charge = used + extra by omega]

/-- Where a run with a budget of a signed word yields, the counter tells how much it used up. -/
theorem used_eq {a : UInt64} {used budget : Nat} (bound : used < budget + UInt64.size / 2)
    (small : budget < UInt64.size / 2) : (a + used.toUInt64 - a).toNat = used := by
  have : a + used.toUInt64 - a = used.toUInt64 := by
    rw [UInt64.add_comm]
    exact UInt64.add_sub_cancel _ _
  rw [this, Nat.toUInt64_eq, UInt64.toNat_ofNat_of_lt']
  omega

theorem run_then_run {m : Machine} {s : σ} (b₁ : Int64) (b₂ : Nat)
    (yielded : (m.run cfg world b₁.toNatClampNeg s).status = .yielded) :
    let p := m.run cfg world b₁.toNatClampNeg s
    p.machine.run cfg world b₂ p.state =
      m.run cfg world ((p.machine.reductions - m.reductions).toNat + b₂) s := by
  intro p
  obtain ⟨used, counted, bound, -, goesOn⟩ := run_yields yielded
  have small : b₁.toNatClampNeg < UInt64.size / 2 := by
    have := b₁.toInt_lt
    simp only [Int64.toNatClampNeg, UInt64.size]
    omega
  rw [goesOn b₂, counted, used_eq bound small]

end ProcLisp.Machine
