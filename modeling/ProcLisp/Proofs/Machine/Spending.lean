import ProcLisp.Proofs.Machine.Dispatches
import ProcLisp.Proofs.Syscall.Table

/-!
# What a run spends

A dispatch takes one reduction and the cost of the syscall that it calls, if it calls one. So a run
goes over its budget by less than the largest cost there is.
-/

namespace ProcLisp

/-- The largest cost in a table. -/
def SyscallTable.maxCost (t : SyscallTable) : Nat :=
  t.foldr (fun e most => max e.2.cost.toNatClampNeg most) 0

theorem SyscallTable.cost_le_maxCost {t : SyscallTable} {e : Bytes × Syscall} (member : e ∈ t) :
    e.2.cost.toNatClampNeg ≤ t.maxCost := by
  induction t with
  | nil => cases member
  | cons first rest ih =>
    simp only [maxCost, List.foldr_cons] at ih ⊢
    rcases List.mem_cons.mp member with rfl | later
    · exact Nat.le_max_left _ _
    · exact Nat.le_trans (ih later) (Nat.le_max_right _ _)

/-! ### What a dispatch calls -/

section Calls

variable (cfg : Machine.Config)

/-- The syscall that arguments go to, if it is there and admits so many. -/
def Target.called? (argc : Nat) : Target → Option Syscall
  | .syscall name => (cfg.table.lookup name argc).toOption
  | _ => none

/-- A form without arguments is called at once. -/
def Form.called? : Form → Option Syscall
  | .syscall name [] => (Target.syscall name).called? cfg 0
  | _ => none

def Frame.called? : Frame → Option Syscall
  | .arguments target done [] => target.called? cfg (done.length + 1)
  | _ => none

/-- The syscall that the next dispatch calls. -/
def Machine.called? (m : Machine) : Option Syscall :=
  match m.control with
  | .eval expr => match Form.read cfg.table expr with
    | .ok form => form.called? cfg
    | .error _ => none
  | .returning => match m.stack.pop? with
    | some (k, _) => k.called? cfg
    | none => none
  | _ => none

end Calls

/-- What a call costs on top of the dispatch. -/
def Syscall.charge (called : Option Syscall) : Nat := called.elim 0 (·.cost.toNatClampNeg)

namespace Machine

variable {σ : Type} {cfg : Config} {world : World σ} {m : Machine} {s : σ}

theorem perform_charge (host : Host σ) (p : Primitive) (args : List Value) (env : Env) :
    (m.perform cfg host p args env s).charge = 0 := by
  unfold perform
  repeat' split
  all_goals rfl

/-- A call is charged whether or not it fails. -/
theorem dispatch_charge (target : Target) (args : List Value) (env : Env) :
    (m.dispatch cfg world target args env s).charge =
      Syscall.charge (target.called? cfg args.length) := by
  cases target with
  | list => rfl
  | syscall name =>
    unfold dispatch Target.called?
    dsimp only
    split
    · rename_i missing
      rw [missing]
      rfl
    · rename_i found
      rw [found]
      rfl
  | primitive p =>
    unfold dispatch
    dsimp only
    split
    · rfl
    · exact perform_charge _ p args env
  | apply params body captured => rfl

theorem evalForm_charge (form : Form) (env : Env) :
    (m.evalForm cfg world form env s).charge = Syscall.charge (form.called? cfg) := by
  cases form with
  | cond clauses => cases clauses <;> rfl
  | list items => cases items <;> rfl
  | primitive p args =>
    cases args with
    | nil => exact dispatch_charge (.primitive p) [] env
    | cons e pending => rfl
  | syscall name args =>
    cases args with
    | nil => exact dispatch_charge (.syscall name) [] env
    | cons e pending => rfl
  | _ => rfl

theorem resumeFrame_charge (k : Frame) (v : Value) (env : Env) :
    (m.resumeFrame cfg world k v env s).charge = Syscall.charge (k.called? cfg) := by
  cases k with
  | binding name others first rest => cases others <;> rfl
  | clause body others =>
    unfold resumeFrame
    dsimp only
    repeat' split
    all_goals rfl
  | arguments target done pending =>
    cases pending with
    | nil =>
      have charged : (m.dispatch cfg world target (v :: done).reverse env s).charge = _ :=
        dispatch_charge target _ env
      rwa [List.length_reverse, List.length_cons] at charged
    | cons e pending => rfl
  | callee args =>
    unfold resumeFrame
    dsimp only
    split
    · split
      · cases args <;> rfl
      · rfl
    · rfl
  | _ => rfl

theorem charge_eq {d : Dispatch σ} (next : m.next? cfg world s = some d) :
    d.charge = Syscall.charge (m.called? cfg) := by
  unfold next? at next
  unfold called?
  cases control : m.control with
  | eval expr =>
    simp only [control, Option.some.injEq] at next
    subst next
    unfold evalStep
    dsimp only
    cases read : Form.read cfg.table expr with
    | error f => rfl
    | ok form => exact evalForm_charge _ _
  | returning =>
    simp only [control] at next
    dsimp only
    cases popped : m.stack.pop? with
    | none => simp [popped] at next
    | some top =>
      simp only [popped, Option.some.injEq] at next
      subst next
      exact resumeFrame_charge _ _ _
  | idle | waiting | done | terminated ending => simp [control] at next

theorem mem_of_target {target : Target} {argc : Nat} {sc : Syscall}
    (called : target.called? cfg argc = some sc) : ∃ name, (name, sc) ∈ cfg.table := by
  cases target with
  | syscall name =>
    unfold Target.called? at called
    dsimp only at called
    cases lookup : cfg.table.lookup name argc with
    | error f => simp [lookup, Except.toOption] at called
    | ok found =>
      obtain rfl : found = sc := by simpa [lookup, Except.toOption] using called
      exact ⟨name, (SyscallTable.mem_of_lookup lookup).1⟩
  | list | primitive p | apply params body captured => cases called

/-- What is called is in the table. -/
theorem mem_of_called {sc : Syscall} (called : m.called? cfg = some sc) :
    ∃ name, (name, sc) ∈ cfg.table := by
  unfold called? at called
  split at called
  · split at called
    · rename_i form read
      unfold Form.called? at called
      split at called
      · exact mem_of_target called
      · cases called
    · cases called
  · split at called
    · rename_i k rest popped
      unfold Frame.called? at called
      split at called
      · exact mem_of_target called
      · cases called
    · cases called
  · cases called

theorem next?_charge {d : Dispatch σ} (next : m.next? cfg world s = some d) :
    d.charge ≤ cfg.table.maxCost := by
  rw [charge_eq next]
  cases called : m.called? cfg with
  | none => exact Nat.zero_le _
  | some sc =>
    obtain ⟨name, member⟩ := mem_of_called called
    exact SyscallTable.cost_le_maxCost member

/-! ### Reductions of a run -/

/-- The reductions that `runFor` executes. -/
def spentFor (cfg : Config) (world : World σ) : (fuel budget : Nat) → Machine → σ → Nat
  | 0, _, _, _ => 0
  | fuel + 1, budget, m, s =>
    if budget = 0 || m.halted?.isSome then 0
    else match m.next? cfg world s with
      | none => 0
      | some d => 1 + d.charge + spentFor cfg world fuel (budget - 1 - d.charge) (m.after d) d.state

def spent (cfg : Config) (world : World σ) (budget : Nat) (m : Machine) (s : σ) : Nat :=
  spentFor cfg world budget budget m s

theorem reductions_pause (m : Machine) (s : σ) : (m.pause s).machine.reductions = m.reductions := by
  unfold pause halted?
  cases m.control <;> rfl

theorem reductions_runFor (fuel budget : Nat) (m : Machine) (s : σ) :
    (m.runFor cfg world fuel budget s).machine.reductions =
      m.reductions + (spentFor cfg world fuel budget m s).toUInt64 := by
  induction fuel generalizing budget m s with
  | zero => simp [runFor, spentFor, reductions_pause]
  | succ fuel ih =>
    unfold runFor spentFor
    split
    · simp [reductions_pause]
    cases next : m.next? cfg world s with
    | none => simp
    | some d =>
      dsimp only
      rw [ih]
      simp [after, Nat.toUInt64, UInt64.ofNat_add, UInt64.add_assoc]

/-- The counter of a machine tells what was spent, in a word of 64 bits. -/
theorem reductions_run (budget : Nat) (m : Machine) (s : σ) :
    (m.run cfg world budget s).machine.reductions =
      m.reductions + (spent cfg world budget m s).toUInt64 :=
  reductions_runFor budget budget m s

theorem spentFor_le (fuel budget : Nat) (m : Machine) (s : σ) :
    spentFor cfg world fuel budget m s ≤ budget + cfg.table.maxCost ∧
      (budget = 0 → spentFor cfg world fuel budget m s = 0) := by
  induction fuel generalizing budget m s with
  | zero => exact ⟨Nat.zero_le _, fun _ => rfl⟩
  | succ fuel ih =>
    unfold spentFor
    by_cases ended : budget = 0 || m.halted?.isSome
    · rw [if_pos ended]
      exact ⟨Nat.zero_le _, fun _ => rfl⟩
    rw [if_neg ended]
    have positive : budget ≠ 0 := by
      rintro rfl
      simp at ended
    refine ⟨?_, fun none => absurd none positive⟩
    split
    · exact Nat.zero_le _
    · rename_i d next
      -- the last dispatch is the only one whose charge can go over the budget
      have charge := next?_charge next
      obtain ⟨bound, empty⟩ := ih (budget - 1 - d.charge) (m.after d) d.state
      by_cases last : budget - 1 - d.charge = 0
      · rw [empty last]
        omega
      · omega

theorem spent_le (budget : Nat) (m : Machine) (s : σ) :
    spent cfg world budget m s ≤ budget + cfg.table.maxCost :=
  (spentFor_le budget budget m s).1

end Machine
end ProcLisp
