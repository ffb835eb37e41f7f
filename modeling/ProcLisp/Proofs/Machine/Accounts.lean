import ProcLisp.Proofs.Machine.Slices
import ProcLisp.Proofs.Machine.Spending

/-!
# Accounts of reductions

A run keeps its budget in a signed word and what a call charges in another one, which it settles
after each dispatch. No cost that was registered is negative, so nothing is left to settle and the
words never overflow: the counter tells the dispatches and the costs of the calls that were made.
-/

namespace ProcLisp

/-- No call is cheaper than nothing. -/
def SyscallTable.Normal (t : SyscallTable) : Prop := ∀ e ∈ t, 0 ≤ e.2.cost

theorem SyscallTable.addAll_normal (calls : List Syscall) : (addAll [] calls).Normal := by
  intro e member
  rcases mem_addAll member with none | ⟨sc, -, rfl⟩
  · cases none
  · show 0 ≤ if sc.cost ≤ 0 then 0 else sc.cost
    split
    · exact Int64.le_refl 0
    · rename_i above
      rw [Int64.le_iff_toInt_le] at above ⊢
      exact Int.le_of_lt (Int.not_le.mp above)

namespace Machine

variable {σ : Type}

/-- A run under way. -/
structure Meter (σ : Type) where
  machine : Machine
  state : σ
  /-- What was charged and is not settled. -/
  pending : Int64 := 0
  /-- What is left of the budget. -/
  budget : Int64

/-- The cost of a call in a signed word. -/
def cost (called : Option Syscall) : Int64 := called.elim 0 (·.cost)

namespace Meter

/-- A dispatch takes one reduction, and what is pending after it is settled if it is positive. -/
def dispatch? (cfg : Config) (world : World σ) (x : Meter σ) : Option (Meter σ) :=
  if x.budget ≤ 0 then none
  else (x.machine.next? cfg world x.state).map fun d =>
    let machine := x.machine.after d
    let reductions := x.machine.reductions + 1
    let budget := x.budget - 1
    let pending := x.pending + cost (x.machine.called? cfg)
    if 0 < pending then
      ⟨{ machine with reductions := reductions + pending.toUInt64 }, d.state, 0, budget - pending⟩
    else ⟨{ machine with reductions }, d.state, pending, budget⟩

/-- What a run comes to that makes no dispatch from here on. -/
def ending (x : Meter σ) : Progress σ :=
  if x.budget ≤ 0 then x.machine.pause x.state else stop (x.machine, x.state)

/-- A number of dispatches, with what each of them calls. -/
inductive Runs (cfg : Config) (world : World σ) :
    Meter σ → List (Option Syscall) → Meter σ → Prop where
  | refl (x : Meter σ) : Runs cfg world x [] x
  | next {x y z : Meter σ} {calls : List (Option Syscall)} (first : x.dispatch? cfg world = some y)
      (later : Runs cfg world y calls z) : Runs cfg world x (x.machine.called? cfg :: calls) z

end Meter

/-- One reduction for each dispatch, and the costs of the calls. -/
def price (calls : List (Option Syscall)) : Nat :=
  calls.length + (calls.map Syscall.charge).foldr (· + ·) 0

@[simp] theorem price_nil : price [] = 0 := rfl

@[simp] theorem price_cons (called : Option Syscall) (calls : List (Option Syscall)) :
    price (called :: calls) = 1 + Syscall.charge called + price calls := by
  simp [price]
  omega

theorem price_append (calls later : List (Option Syscall)) :
    price (calls ++ later) = price calls + price later := by
  induction calls with
  | nil => simp
  | cons called calls ih =>
    simp only [List.cons_append, price_cons, ih]
    omega

variable {cfg : Config} {world : World σ} {m : Machine} {s : σ} {x y : Meter σ}
  {calls : List (Option Syscall)}

theorem cost_nonneg (normal : cfg.table.Normal) (m : Machine) : 0 ≤ cost (m.called? cfg) := by
  cases called : m.called? cfg with
  | none => exact Int64.le_refl 0
  | some sc =>
    obtain ⟨name, member⟩ := mem_of_called called
    exact normal (name, sc) member

theorem toNatClampNeg_cost (called : Option Syscall) :
    (cost called).toNatClampNeg = Syscall.charge called := by
  cases called <;> rfl

theorem toInt_sub {a b : Int64} (nonneg : 0 ≤ a.toInt) (nonneg' : 0 ≤ b.toInt) :
    (a - b).toInt = a.toInt - b.toInt := by
  have above := a.toInt_lt
  have above' := b.toInt_lt
  rw [Int64.toInt_sub, Int.bmod_eq_of_le] <;> omega

namespace Meter

/-- With nothing pending before a dispatch nothing is pending after it, and the budget gets by
without an overflow. -/
theorem dispatch?_eq (normal : cfg.table.Normal) (settled : x.pending = 0)
    (left : 0 < x.budget.toInt) {d : Dispatch σ}
    (next : x.machine.next? cfg world x.state = some d) :
    ∃ budget : Int64, budget.toInt = x.budget.toInt - 1 - d.charge ∧
      x.dispatch? cfg world = some ⟨x.machine.after d, d.state, 0, budget⟩ := by
  have going : ¬x.budget ≤ 0 := by
    rw [Int64.le_iff_toInt_le]
    exact Int.not_le.mpr left
  have charge : d.charge = (cost (x.machine.called? cfg)).toNatClampNeg := by
    rw [charge_eq next, toNatClampNeg_cost]
  have nonneg := cost_nonneg normal x.machine
  unfold dispatch?
  rw [if_neg going, next, settled, Int64.zero_add]
  generalize cost (x.machine.called? cfg) = c at charge nonneg
  have word := Int64.cast_toNatClampNeg c nonneg
  rw [← charge] at word
  have one : (x.budget - 1).toInt = x.budget.toInt - 1 :=
    toInt_sub (Int.le_of_lt left) (by decide)
  have nonneg' : 0 ≤ c.toInt := Int64.le_iff_toInt_le.mp nonneg
  by_cases costly : 0 < c
  · have counted : c.toUInt64 = d.charge.toUInt64 := by
      rw [← UInt64.toNat_inj, Int64.toNat_toUInt64_of_le nonneg, ← charge, Nat.toUInt64_eq,
        UInt64.toNat_ofNat_of_lt' (by have := c.toInt_lt; simp only [UInt64.size]; omega)]
    refine ⟨x.budget - 1 - c, ?_, ?_⟩
    · rw [toInt_sub (by omega) nonneg', one, word]
    · simp only [Option.map_some, if_pos costly, after, counted]
  · have free : c = 0 := by
      rw [Int64.lt_iff_toInt_lt] at costly
      exact Int64.toInt_inj.mp (Int.le_antisymm (Int.not_lt.mp costly) nonneg')
    have counted : d.charge = 0 := by simp [charge, free]
    refine ⟨x.budget - 1, by simpa [counted] using one, ?_⟩
    simp [free, after, counted]

theorem dispatch?_some (first : x.dispatch? cfg world = some y) :
    0 < x.budget.toInt ∧ ∃ d, x.machine.next? cfg world x.state = some d := by
  unfold dispatch? at first
  split at first
  · cases first
  · rename_i left
    rw [Int64.le_iff_toInt_le] at left
    obtain ⟨d, next, -⟩ := Option.map_eq_some_iff.mp first
    exact ⟨Int.not_le.mp left, d, next⟩

/-- What a dispatch with nothing pending comes from and what it leaves. -/
theorem dispatch?_cases (normal : cfg.table.Normal) (settled : x.pending = 0)
    (first : x.dispatch? cfg world = some y) :
    0 < x.budget.toInt ∧ ∃ (d : Dispatch σ) (budget : Int64),
      x.machine.next? cfg world x.state = some d ∧
      budget.toInt = x.budget.toInt - 1 - d.charge ∧
      y = ⟨x.machine.after d, d.state, 0, budget⟩ := by
  obtain ⟨left, d, next⟩ := dispatch?_some first
  obtain ⟨budget, word, dispatched⟩ := dispatch?_eq normal settled left next
  exact ⟨left, d, budget, next, word, Option.some.inj (first.symm.trans dispatched)⟩

/-- What was paid for so far: the counter and the budget agree with the price of the calls. -/
structure Settled (x : Meter σ) (calls : List (Option Syscall)) (y : Meter σ) : Prop where
  pending : y.pending = 0
  counted : y.machine.reductions = x.machine.reductions + (price calls).toUInt64
  left : y.budget.toInt = x.budget.toInt - price calls

theorem Runs.settled (normal : cfg.table.Normal) (nothing : x.pending = 0)
    (runs : Runs cfg world x calls y) : Settled x calls y := by
  induction runs with
  | refl x => exact ⟨nothing, by simp, by simp⟩
  | @next x y z calls first later ih =>
    obtain ⟨left, d, budget, next, word, rfl⟩ := dispatch?_cases normal nothing first
    obtain ⟨pending, counted, left⟩ := ih rfl
    refine ⟨pending, ?_, ?_⟩
    · rw [counted, after_reductions, charge_eq next, price_cons]
      simp only [Nat.toUInt64, UInt64.ofNat_add, UInt64.add_assoc]
    · rw [left, word, charge_eq next, price_cons]
      omega

/-- Only the last dispatch can go over the budget, by what it calls. -/
theorem Runs.price_le (normal : cfg.table.Normal) (nothing : x.pending = 0)
    (runs : Runs cfg world x calls y) :
    price calls ≤ x.budget.toNatClampNeg + Syscall.charge calls.getLast?.join := by
  induction runs with
  | refl x => exact Nat.zero_le _
  | @next x y z calls first later ih =>
    obtain ⟨left, d, budget, next, word, rfl⟩ := dispatch?_cases normal nothing first
    have bound := ih rfl
    cases later with
    | refl =>
      simp only [price_cons, price_nil, List.getLast?_singleton, Option.join_some,
        Int64.toNatClampNeg]
      omega
    | @next y z' z calls' second later =>
      have positive : 0 < budget.toInt := (dispatch?_some second).1
      rw [price_cons, List.getLast?_cons_cons]
      simp only [Int64.toNatClampNeg] at bound ⊢
      rw [charge_eq next] at word
      omega

/-- The loop comes to where the run comes to. -/
theorem Runs.ending_eq (normal : cfg.table.Normal) (nothing : x.pending = 0)
    (runs : Runs cfg world x calls y) (spent : y.dispatch? cfg world = none) :
    x.machine.run cfg world x.budget.toNatClampNeg x.state = y.ending := by
  induction runs with
  | refl x =>
    unfold ending
    by_cases left : 0 < x.budget.toInt
    · have going : ¬x.budget ≤ 0 := by
        rw [Int64.le_iff_toInt_le]
        exact Int.not_le.mpr left
      have stuck : x.machine.next? cfg world x.state = none := by
        cases next : x.machine.next? cfg world x.state with
        | none => rfl
        | some d =>
          obtain ⟨budget, -, dispatched⟩ := dispatch?_eq normal nothing left next
          cases spent.symm.trans dispatched
      obtain ⟨n, budget⟩ : ∃ n, x.budget.toNatClampNeg = n + 1 :=
        ⟨x.budget.toNatClampNeg - 1, by simp only [Int64.toNatClampNeg]; omega⟩
      rw [if_neg going, budget]
      cases halted : x.machine.halted? with
      | none => rw [run, runFor_none halted stuck]
      | some h =>
        have halts : x.machine.halted?.isSome := by simp [halted]
        rw [run, runFor_halted halts, pause_of_halted halts]
    · have out : x.budget ≤ 0 := Int64.le_iff_toInt_le.mpr (Int.not_lt.mp left)
      have zero : x.budget.toNatClampNeg = 0 := Int.toNat_of_nonpos (Int.not_lt.mp left)
      rw [if_pos out, zero, run, runFor_zero]
  | @next x y z calls first later ih =>
    obtain ⟨left, d, budget, next, word, rfl⟩ := dispatch?_cases normal nothing first
    have taken : x.budget.toNatClampNeg = x.budget.toNatClampNeg - 1 + 1 := by
      simp only [Int64.toNatClampNeg]
      omega
    have rest : x.budget.toNatClampNeg - 1 - d.charge = budget.toNatClampNeg := by
      simp only [Int64.toNatClampNeg]
      omega
    rw [taken, run_some next, rest]
    exact ih rfl spent

theorem exists_runs (normal : cfg.table.Normal) (world : World σ) (x : Meter σ)
    (nothing : x.pending = 0) :
    ∃ calls y, Runs cfg world x calls y ∧ y.dispatch? cfg world = none := by
  induction size : x.budget.toNatClampNeg using Nat.strongRecOn generalizing x with
  | _ n ih =>
    cases first : x.dispatch? cfg world with
    | none => exact ⟨[], x, .refl x, first⟩
    | some y =>
      obtain ⟨left, d, budget, next, word, rfl⟩ := dispatch?_cases normal nothing first
      have smaller : budget.toNatClampNeg < n := by
        simp only [Int64.toNatClampNeg] at size ⊢
        omega
      obtain ⟨calls, z, later, spent⟩ := ih _ smaller ⟨_, _, 0, budget⟩ rfl rfl
      exact ⟨_, z, .next first later, spent⟩

theorem Runs.mem_table (runs : Runs cfg world x calls y) {sc : Syscall}
    (member : some sc ∈ calls) : ∃ name, (name, sc) ∈ cfg.table := by
  induction runs with
  | refl x => cases member
  | next first later ih =>
    rcases List.mem_cons.mp member with called | rest
    · exact mem_of_called called.symm
    · exact ih rest

theorem reductions_ending (x : Meter σ) : x.ending.machine.reductions = x.machine.reductions := by
  unfold ending
  split
  · exact reductions_pause x.machine x.state
  · unfold stop halted?
    cases x.machine.control <;> rfl

/-- A run that yields has used its budget up. -/
theorem ending_yielded (yielded : x.ending.status = .yielded) : x.budget.toInt ≤ 0 := by
  unfold ending at yielded
  split at yielded
  · exact Int64.le_iff_toInt_le.mp (by assumption)
  · exact absurd yielded (stop_status _)

end Meter

/-! ### Runs one after another -/

/-- What is done with a machine from outside; each run has a state of its own to act on. -/
inductive Use (σ : Type) where
  | run (budget : Int64) (s : σ)
  | resume (msg : Value)

/-- What a use leaves; a machine that does not wait refuses a message. -/
def use (cfg : Config) (world : World σ) (m : Machine) : Use σ → Machine
  | .run budget s => (m.run cfg world budget.toNatClampNeg s).machine
  | .resume msg => (m.resume msg).toOption.getD m

/-- Uses of a machine and of what is pending with it, and all that is called. -/
inductive Serves (cfg : Config) (world : World σ) :
    Machine × Int64 → List (Use σ) → List (Option Syscall) → Machine × Int64 → Prop where
  | done (m : Machine) (pending : Int64) : Serves cfg world (m, pending) [] [] (m, pending)
  | run {m : Machine} {pending budget : Int64} {s : σ} {calls later : List (Option Syscall)}
      {x : Meter σ} {uses : List (Use σ)} {last : Machine × Int64}
      (runs : Meter.Runs cfg world ⟨m, s, pending, budget⟩ calls x)
      (spent : x.dispatch? cfg world = none)
      (rest : Serves cfg world (x.ending.machine, x.pending) uses later last) :
      Serves cfg world (m, pending) (.run budget s :: uses) (calls ++ later) last
  | resume {m : Machine} {pending : Int64} {msg : Value} {calls : List (Option Syscall)}
      {uses : List (Use σ)} {last : Machine × Int64}
      (rest : Serves cfg world ((m.resume msg).toOption.getD m, pending) uses calls last) :
      Serves cfg world (m, pending) (.resume msg :: uses) calls last

theorem reductions_resume (m : Machine) (msg : Value) :
    ((m.resume msg).toOption.getD m).reductions = m.reductions := by
  unfold resume
  cases m.control <;> rfl

theorem exists_serves (normal : cfg.table.Normal) (world : World σ) (uses : List (Use σ))
    (m : Machine) :
    ∃ calls, Serves cfg world (m, 0) uses calls (uses.foldl (use cfg world) m, 0) ∧
      (uses.foldl (use cfg world) m).reductions = m.reductions + (price calls).toUInt64 := by
  induction uses generalizing m with
  | nil => exact ⟨[], .done m 0, by simp⟩
  | cons first uses ih =>
    cases first with
    | run budget s =>
      obtain ⟨calls, x, runs, spent⟩ := Meter.exists_runs normal world ⟨m, s, 0, budget⟩ rfl
      have ended := runs.ending_eq normal rfl spent
      obtain ⟨pending, counted, -⟩ := runs.settled normal rfl
      obtain ⟨later, serves, total⟩ := ih x.ending.machine
      have same : use cfg world m (.run budget s) = x.ending.machine :=
        congrArg Progress.machine ended
      rw [List.foldl_cons, same]
      refine ⟨calls ++ later, .run runs spent (pending ▸ serves), ?_⟩
      rw [total, Meter.reductions_ending, counted, price_append]
      simp only [Nat.toUInt64, UInt64.ofNat_add, UInt64.add_assoc]
    | resume msg =>
      obtain ⟨calls, serves, total⟩ := ih ((m.resume msg).toOption.getD m)
      refine ⟨calls, .resume serves, ?_⟩
      rw [← reductions_resume m msg]
      exact total

/-- For every table, whatever costs were registered, the counter grows over runs and messages by one
for each dispatch and by the costs of the calls, failed ones included. What a dispatch charges is
settled before the next one. A run makes no dispatch without a budget, has used all of it if it
yields, and goes over it by no more than the cost of its last call. -/
theorem reductions_account (calls : List Syscall) (bound : Int) (world : World σ) (m : Machine) :
    let cfg : Config := .ofBound (.addAll [] calls) bound
    (∀ uses : List (Use σ), ∃ called,
      Serves cfg world (m, 0) uses called (uses.foldl (use cfg world) m, 0) ∧
      (uses.foldl (use cfg world) m).reductions = m.reductions + (price called).toUInt64) ∧
    ∀ (s : σ) (budget : Int64), ∃ called x,
      Meter.Runs cfg world ⟨m, s, 0, budget⟩ called x ∧ x.dispatch? cfg world = none ∧
      m.run cfg world budget.toNatClampNeg s = x.ending ∧
      (∀ sofar y, Meter.Runs cfg world ⟨m, s, 0, budget⟩ sofar y → y.pending = 0) ∧
      (∀ sc, some sc ∈ called →
        ∃ registered ∈ calls, sc = { registered with cost := max registered.cost 0 }) ∧
      (x.ending.machine.reductions - m.reductions).toNat = price called ∧
      (budget ≤ 0 → called = []) ∧
      (1 ≤ budget → x.ending.status = .yielded → budget.toNatClampNeg ≤ price called) ∧
      price called ≤ budget.toNatClampNeg + Syscall.charge called.getLast?.join := by
  intro cfg
  have normal : cfg.table.Normal := SyscallTable.addAll_normal calls
  refine ⟨fun uses => exists_serves normal world uses m, fun s budget => ?_⟩
  obtain ⟨called, x, runs, spent⟩ := Meter.exists_runs normal world ⟨m, s, 0, budget⟩ rfl
  obtain ⟨-, counted, left⟩ := runs.settled normal rfl
  have bounded := runs.price_le normal rfl
  dsimp only at bounded
  have charge : Syscall.charge called.getLast?.join < UInt64.size / 2 := by
    rw [← toNatClampNeg_cost]
    exact Int64.toNatClampNeg_lt _
  refine ⟨called, x, runs, spent, runs.ending_eq normal rfl spent,
    fun sofar y runs => (runs.settled normal rfl).pending, fun sc member => ?_, ?_, fun none => ?_,
    fun positive yielded => ?_, bounded⟩
  · obtain ⟨name, there⟩ := runs.mem_table member
    rcases SyscallTable.mem_addAll there with none | ⟨registered, listed, same⟩
    · cases none
    · exact ⟨registered, listed, (Prod.mk.inj same).2⟩
  · rw [Meter.reductions_ending, counted]
    exact used_eq (by omega) budget.toNatClampNeg_lt
  · cases runs with
    | refl => rfl
    | next first later =>
      have some := (Meter.dispatch?_some first).1
      rw [Int64.le_iff_toInt_le] at none
      exact absurd some (Int.not_lt.mpr none)
  · have out := Meter.ending_yielded yielded
    rw [left] at out
    have used : budget.toInt ≤ price called := Int.le_of_sub_nonpos out
    exact Int.toNat_le.mpr used

end Machine
end ProcLisp
