import ProcLisp.Proofs.Machine.Bounded
import ProcLisp.Proofs.Machine.Following

/-!
# The machine computes what the bounded recursion says

Over every stack a machine follows the bounded recursion: it answers as that does, overflows
included, and goes on for as long as there is no answer.
-/

namespace ProcLisp

theorem Stack.covered_footing {k : Stack} : k.footing.covered = true ↔ k.Covered := by
  obtain ⟨frames, depth, same⟩ := k
  unfold Stack.footing Stack.Covered
  cases frames with
  | nil => simp
  | cons frame rest => cases frame <;> simp [Frame.isRestore]

theorem Stack.footing_push (k : Stack) (frame : Frame) :
    (k.push frame).footing = ⟨k.depth + 1, frame.isRestore⟩ := by
  simp [Stack.footing, Stack.push]

namespace Machine

open Recursive (Ambient Eval)
open Bounded (evaluate enclosed)

/-- At depth `n` the machine does what the bounded recursion says, over every stack. -/
def Exact (cfg : Config) (n : Nat) : Prop :=
  ∀ e env k amb c, Evaluating e env k amb c →
    Follows cfg k n 0 c (evaluate cfg n k.footing e env amb)

variable {cfg : Config} {k : Stack} {n : Nat} {c : Machine × Transcript} {env : Env}
  {amb : Ambient} {m origin : Machine} {v e : Value} {frame : Frame}

/-- An evaluation under a new frame, and what comes after it. -/
theorem Exact.under (exact : Exact cfg n) {g : Value → Eval Value} (stands : m.Stands k amb)
    (supply : origin.supply = amb.supply) (plain : frame.isRestore = false)
    (next : ∀ v env' amb' c', Returning v env' (k.push frame) amb' c' →
      Follows cfg k n 0 c' (g v env' amb')) :
    Follows cfg k n 0
      (origin.land (quiet amb.transcript ((m.push cfg frame).map (·.eval e env))))
      ((Bounded.under cfg (evaluate cfg n) k.footing e >>= g) env amb) := by
  have depth : m.stack.depth = k.footing.depth := by rw [stands.stack]; rfl
  unfold push Bounded.under
  rw [depth]
  split
  · have pushed : Stands { m with stack := m.stack.push frame } (k.push frame) amb :=
      ⟨by simp [stands.stack], stands.supply⟩
    have above := exact e env _ amb _ (land_eval pushed origin e env)
    rw [Stack.footing_push, plain] at above
    exact above.bind next
  · exact .fails (land_error supply _)

/-! ### Scopes -/

theorem pushRestore_eq (stands : m.Stands k amb) (env : Env) :
    m.pushRestore cfg env =
      if k.footing.covered && cfg.elide then .ok m else m.push cfg (.restore env) := by
  unfold pushRestore
  rw [stands.stack]
  split
  · rename_i saved rest frames
    have covered : k.footing.covered = true := Stack.covered_footing.mpr ⟨_, _, frames⟩
    simp [covered]
  · rename_i other
    have uncovered : k.footing.covered = false := by
      rw [Bool.eq_false_iff, ne_eq, Stack.covered_footing]
      rintro ⟨saved, rest, frames⟩
      exact other saved rest frames
    simp [uncovered]

theorem follows_enclosed {x : Footing → Eval Value} {next : Machine → Except Failure Machine}
    (stands : m.Stands k amb) (supply : origin.supply = amb.supply)
    (inner : ∀ m' k', m'.Stands k' amb →
      Follows cfg k' n 0 (origin.land (quiet amb.transcript (next m'))) (x k'.footing env amb)) :
    Follows cfg k n 0 (origin.land (quiet amb.transcript ((m.pushRestore cfg env).bind next)))
      (enclosed cfg k.footing x env amb) := by
  rw [pushRestore_eq stands]
  unfold Bounded.enclosed
  split
  · rename_i elided
    have covered : k.Covered := Stack.covered_footing.mp (by simp_all)
    exact .inScope (.inl ⟨rfl, covered⟩) (inner m k stands)
  · have depth : m.stack.depth = k.footing.depth := by rw [stands.stack]; rfl
    unfold push
    rw [depth]
    split
    · have pushed : Stands { m with stack := m.stack.push (.restore env) } (k.push (.restore env))
          amb := ⟨by simp [stands.stack], stands.supply⟩
      have within := inner _ _ pushed
      rw [Stack.footing_push] at within
      exact .inScope (.inr rfl) within
    · exact .fails (land_error supply _)

/-! ### The parts of forms -/

namespace Exact

theorem sequence (exact : Exact cfg n) (rest : List Value) (stands : m.Stands k amb)
    (supply : origin.supply = amb.supply) :
    Follows cfg k n 0 (origin.land (quiet amb.transcript (m.evalSequence cfg e rest env)))
      (Bounded.sequence cfg (evaluate cfg n) k.footing e rest env amb) := by
  induction rest generalizing e env amb m origin with
  | nil => exact exact e env k amb _ (land_eval stands origin e env)
  | cons next rest ih =>
    refine exact.under stands supply rfl fun v env' amb' c' returning => ?_
    exact .resume returning rfl fun m' stands' supply' => ih stands' supply'

theorem bindings (exact : Exact cfg n) (others : List (Bytes × Value)) {name : Bytes}
    {first : Value} {rest : List Value}
    (returning : Returning v env (k.push (.binding name others first rest)) amb c) :
    Follows cfg k n 0 c
      ((Recursive.bindings (Bounded.under cfg (evaluate cfg n) k.footing) others >>= fun _ =>
        Bounded.sequence cfg (evaluate cfg n) k.footing first rest) (env.bind name v) amb) := by
  induction others generalizing name v env amb c with
  | nil => exact .resume returning rfl fun m' stands' supply => exact.sequence rest stands' supply
  | cons b others ih =>
    refine .resume returning rfl fun m' stands' supply => ?_
    rw [Recursive.bindings, Eval.bind_assoc]
    exact exact.under stands' supply rfl fun v env' amb' c' returning' => ih returning'

theorem clauses (exact : Exact cfg n) (others : List (Value × Value)) {body : Value}
    (returning : Returning v env (k.push (.clause body others)) amb c) :
    Follows cfg k n 0 c
      ((if v.truthy then evaluate cfg n k.footing body
        else Bounded.clauses cfg (evaluate cfg n) k.footing others) env amb) := by
  induction others generalizing v body env amb c with
  | nil =>
    refine .resume returning rfl fun m' stands' _ => ?_
    by_cases holds : v.truthy
    · simp only [resumeFrame, holds, if_true]
      exact exact body env k amb _ (land_eval stands' c.1 body env)
    · simp only [resumeFrame, holds, if_false, Bool.false_eq_true]
      exact .returns (land_ret stands' c.1 incompleteCond env)
  | cons clause others ih =>
    refine .resume returning rfl fun m' stands' supply => ?_
    by_cases holds : v.truthy
    · simp only [resumeFrame, holds, if_true]
      exact exact body env k amb _ (land_eval stands' c.1 body env)
    · simp only [resumeFrame, holds, if_false, Bool.false_eq_true]
      exact exact.under stands' supply rfl fun v env' amb' c' returning' => ih returning'

end Exact

/-- The machine follows `g` from where evaluated arguments go to `target`. -/
def Delivers (cfg : Config) (k : Stack) (n : Nat) (target : Target)
    (g : List Value → Eval Value) : Prop :=
  ∀ (vs : List Value) (env : Env) (amb : Ambient) (m origin : Machine),
    m.Stands k amb → origin.supply = amb.supply →
    Follows cfg k n 0
      (origin.land (m.dispatch cfg .solitary target vs env amb.transcript)) (g vs env amb)

namespace Exact

section Arguments

variable {target : Target} {g : List Value → Eval Value}

theorem arguments (exact : Exact cfg n) (deliver : Delivers cfg k n target g)
    (pending : List Value) {done : List Value}
    (returning : Returning v env (k.push (.arguments target done pending)) amb c) :
    Follows cfg k n 0 c
      ((Recursive.arguments (Bounded.under cfg (evaluate cfg n) k.footing) pending >>= fun vs =>
        g ((v :: done).reverse ++ vs)) env amb) := by
  induction pending generalizing v done env amb c with
  | nil =>
    refine .resume returning rfl fun m' stands' supply => ?_
    have delivered := deliver (v :: done).reverse env amb m' c.1 stands' supply
    simpa [Recursive.arguments, Eval.pure_bind, resumeFrame] using delivered
  | cons e pending ih =>
    refine .resume returning rfl fun m' stands' supply => ?_
    rw [Recursive.arguments, Eval.bind_assoc]
    refine exact.under stands' supply rfl fun v' env' amb' c' returning' => ?_
    rw [Eval.bind_assoc]
    have later := ih returning'
    simpa [Eval.pure_bind] using later

theorem evalArgs (exact : Exact cfg n) (deliver : Delivers cfg k n target g) (args : List Value)
    (stands : m.Stands k amb) (supply : origin.supply = amb.supply) :
    Follows cfg k n 0
      (origin.land (m.evalArgs cfg .solitary target args env amb.transcript))
      ((Recursive.arguments (Bounded.under cfg (evaluate cfg n) k.footing) args >>= g)
        env amb) := by
  cases args with
  | nil => exact deliver [] env amb m origin stands supply
  | cons e pending =>
    rw [Recursive.arguments, Eval.bind_assoc]
    refine exact.under stands supply rfl fun v env' amb' c' returning => ?_
    rw [Eval.bind_assoc]
    exact exact.arguments deliver pending returning

end Arguments

end Exact

theorem delivers_list : Delivers cfg k n .list fun vs => pure (.list vs) := by
  intro vs env amb m origin stands _
  exact .returns (land_ret stands origin (.list vs) env)

theorem delivers_primitive (p : Primitive) :
    Delivers cfg k n (.primitive p) fun _ => Eval.fail (.notInProcess p.name) := by
  intro vs env amb m origin _ supply
  exact .fails (land_error supply _)

theorem delivers_syscall (name : Bytes) :
    Delivers cfg k n (.syscall name) (Recursive.syscall cfg.table name) := by
  intro vs env amb m origin stands supply
  simp only [dispatch, Recursive.syscall, SyscallTable.invoke]
  cases cfg.table.lookup name vs.length with
  | error f => exact .fails (land_error supply f)
  | ok sc =>
    simp only [Eval.print, Bind.bind]
    cases (sc.call vs).2 with
    | error f =>
      refine .fails ⟨rfl, ?_⟩
      simp [ambient, land, after, fail, Except.map, supply, World.solitary]
    | ok v =>
      refine .returns ⟨rfl, rfl, .inl rfl, stands.stack, ?_⟩
      simp [ambient, land, after, ret, Except.map, stands.supply, World.solitary]

theorem delivers_apply (exact : Exact cfg n) (params : List Bytes) (body : Value)
    (captured : Env) :
    Delivers cfg k n (.apply params body captured) fun vs =>
      enclosed cfg k.footing fun inner =>
        .modify (fun env => (env.merge captured).bindAll params vs) >>= fun _ =>
          evaluate cfg n inner body := by
  intro vs env amb m origin stands supply
  have scope : m.enter cfg params body captured vs env = (m.pushRestore cfg env).bind fun m' =>
      .ok (m'.eval body ((env.merge captured).bindAll params vs)) := by
    unfold enter
    cases m.pushRestore cfg env <;> rfl
  simp only [dispatch, scope]
  exact follows_enclosed stands supply fun m' k' stands' =>
    exact body _ k' amb _ (land_eval stands' origin body _)

namespace Exact

theorem apply (exact : Exact cfg n) {args : List Value}
    (returning : Returning v env (k.push (.callee args)) amb c) :
    Follows cfg k n 0 c (Bounded.apply cfg (evaluate cfg n) k.footing v args env amb) := by
  refine .resume returning rfl fun m stands supply => ?_
  cases v with
  | lambda tag params body captured =>
    simp only [resumeFrame, Bounded.apply]
    split
    · exact exact.evalArgs (delivers_apply exact params body captured) args stands supply
    · exact .fails (land_error supply _)
  | _ => exact .fails (land_error supply _)

theorem letIn (exact : Exact cfg n) (bs : List (Bytes × Value)) (first : Value)
    (rest : List Value) (stands : m.Stands k amb) (supply : origin.supply = amb.supply) :
    Follows cfg k n 0
      (origin.land (m.evalForm cfg .solitary (.letIn bs first rest) env amb.transcript))
      (Bounded.form cfg (evaluate cfg n) k.footing (.letIn bs first rest) env amb) := by
  cases bs with
  | nil =>
    have scope : m.evalForm cfg .solitary (.letIn [] first rest) env amb.transcript =
        quiet amb.transcript ((m.pushRestore cfg env).bind fun m' =>
          m'.evalSequence cfg first rest env) := by
      unfold evalForm
      cases m.pushRestore cfg env <;> rfl
    rw [scope, Bounded.form]
    exact follows_enclosed stands supply fun m' k' stands' => exact.sequence rest stands' supply
  | cons b others =>
    have scope : m.evalForm cfg .solitary (.letIn (b :: others) first rest) env amb.transcript =
        quiet amb.transcript ((m.pushRestore cfg env).bind fun m' =>
          (m'.push cfg (.binding b.1 others first rest)).map (·.eval b.2 env)) := by
      unfold evalForm
      cases m.pushRestore cfg env <;> rfl
    rw [scope, Bounded.form]
    refine follows_enclosed stands supply fun m' k' stands' => ?_
    rw [Recursive.bindings, Eval.bind_assoc]
    exact exact.under stands' supply rfl fun v env' amb' c' returning =>
      exact.bindings others returning

/-! ### Forms and expressions -/

theorem form (exact : Exact cfg n) (form : Form) (stands : m.Stands k amb)
    (supply : origin.supply = amb.supply) :
    Follows cfg k n 0 (origin.land (m.evalForm cfg .solitary form env amb.transcript))
      (Bounded.form cfg (evaluate cfg n) k.footing form env amb) := by
  cases form with
  | value v => exact .returns (land_ret stands origin v env)
  | lookup name =>
    simp only [evalForm, Bounded.form]
    cases env.lookup name with
    | error f => exact .fails (land_error supply f)
    | ok v => exact .returns (land_ret stands origin v env)
  | branch test yes no =>
    refine exact.under stands supply rfl fun v env' amb' c' returning => ?_
    refine .resume returning rfl fun m' stands' _ => ?_
    by_cases holds : v.truthy
    · simp only [resumeFrame, holds, if_true]
      exact exact yes env' k amb' _ (land_eval stands' c'.1 yes env')
    · simp only [resumeFrame, holds, if_false, Bool.false_eq_true]
      exact exact no env' k amb' _ (land_eval stands' c'.1 no env')
  | sequence first rest => exact exact.sequence rest stands supply
  | define name expr =>
    refine exact.under stands supply rfl fun v env' amb' c' returning => ?_
    refine .resume returning rfl fun m' stands' _ => ?_
    exact .returns (land_ret stands' c'.1 v (env'.bind name v))
  | letIn bs first rest => exact exact.letIn bs first rest stands supply
  | lambda params body =>
    refine .returns ⟨rfl, ?_, .inl rfl, stands.stack, ?_⟩
    · simp [land, after, evalForm, quiet, close, ret, stands.supply]
    · simp [ambient, land, after, evalForm, quiet, close, ret, stands.supply]
  | cond clauses =>
    cases clauses with
    | nil => exact .returns (land_ret stands origin incompleteCond env)
    | cons clause others =>
      exact exact.under stands supply rfl fun v env' amb' c' returning =>
        exact.clauses others returning
  | list items => exact exact.evalArgs delivers_list items stands supply
  | primitive p args => exact exact.evalArgs (delivers_primitive p) args stands supply
  | syscall name args => exact exact.evalArgs (delivers_syscall name) args stands supply
  | apply head args =>
    exact exact.under stands supply rfl fun v env' amb' c' returning => exact.apply returning

end Exact

/-- The machine follows the bounded recursion at every depth. -/
theorem exact (cfg : Config) (n : Nat) : Exact cfg n := by
  induction n with
  | zero =>
    intro e env k amb c _
    exact .inl ⟨c, rfl⟩
  | succ n ih =>
    intro e env k amb c evaluating
    obtain ⟨m, t⟩ := c
    obtain ⟨control, env_eq, stack, same⟩ := evaluating
    have supply : m.supply = amb.supply := by rw [← same]; rfl
    have transcript : t = amb.transcript := by rw [← same]; rfl
    have step : iterate cfg .solitary 1 (m, t) =
        some (m.land (m.evalStep cfg .solitary e amb.transcript)) := by
      simp only at control
      simp [iterate_one, advance?, next?, control, transcript]
    suffices later : Follows cfg k n 0 (m.land (m.evalStep cfg .solitary e amb.transcript))
        (evaluate cfg (n + 1) k.footing e env amb) by
      have whole := later.prepend step
      exact whole.fewer (by omega) (Nat.le_refl _)
    simp only [evalStep, evaluate]
    cases Form.read cfg.table e with
    | error f => exact .fails (land_error supply f)
    | ok form =>
      simp only at env_eq
      rw [env_eq]
      exact ih.form form ⟨stack, supply⟩ supply

/-- A machine that a program was loaded into follows the program. -/
theorem exact_program (cfg : Config) (n : Nat) (exprs : List Value) (env : Env)
    (supply : Supply) :
    Follows cfg .empty n 0 (({ supply } : Machine).load exprs env, [])
      (Bounded.program cfg n exprs env ⟨supply, []⟩) := by
  cases exprs with
  | nil => exact .returns ⟨rfl, rfl, .inl rfl, rfl, rfl⟩
  | cons e rest =>
    cases rest with
    | nil => exact exact cfg n e env .empty _ _ ⟨rfl, rfl, rfl, rfl⟩
    | cons next others =>
      have first := exact cfg n e env (Stack.empty.push (.sequence next others)) ⟨supply, []⟩
        (({ supply } : Machine).load (e :: next :: others) env, []) ⟨rfl, rfl, rfl, rfl⟩
      refine first.bind fun v env' amb' c' returning => ?_
      refine .resume returning rfl fun m stands supply' => ?_
      exact (exact cfg n).sequence others stands supply'

end Machine
end ProcLisp
