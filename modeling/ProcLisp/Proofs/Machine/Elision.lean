import ProcLisp.Proofs.Machine.Following
import ProcLisp.Proofs.Results

/-!
# Restore frames that are left out

An eliding machine has the frames of a plain one, less all but the lowest of each row of restore
frames. On top of such a row the two may return in different environments. The lowest frame of the
row, which both have, sets that right before any other frame sees it.
-/

namespace ProcLisp

/-- The frames of an eliding machine, and those of the plain one that it stands for. -/
inductive Elided : List Frame → List Frame → Prop
  | nil : Elided [] []
  | keep (k : Frame) {fs gs : List Frame} (rest : Elided fs gs) : Elided (k :: fs) (k :: gs)
  | drop (saved : Env) {kept : Env} {fs gs : List Frame} (rest : Elided (.restore kept :: fs) gs) :
      Elided (.restore kept :: fs) (.restore saved :: gs)

theorem Elided.refl (fs : List Frame) : Elided fs fs := by
  induction fs with
  | nil => exact .nil
  | cons k fs ih => exact .keep k ih

theorem Elided.length_le {fs gs : List Frame} (elided : Elided fs gs) : fs.length ≤ gs.length := by
  induction elided with
  | nil => exact Nat.le_refl _
  | keep k rest ih => exact Nat.succ_le_succ ih
  | drop saved rest ih => exact Nat.le_succ_of_le ih

namespace Machine

def Config.eliding (cfg : Config) : Config := { cfg with elide := true }

def Config.plain (cfg : Config) : Config := { cfg with elide := false }

/-- The same machine, but for frames that are left out; what it does next is not compared. -/
structure Beside (m p : Machine) : Prop where
  env : m.env = p.env
  val : m.val = p.val
  supply : m.supply = p.supply
  stack : Elided m.stack.frames p.stack.frames

structure Mirrors (m p : Machine) : Prop extends Beside m p where
  control : m.control = p.control

/-- On top of a restore frame a machine may return in another environment. -/
structure Matches (m p : Machine) : Prop where
  control : m.control = p.control
  env : m.env = p.env ∨ m.control = .returning ∧ m.stack.Covered
  val : m.val = p.val
  supply : m.supply = p.supply
  stack : Elided m.stack.frames p.stack.frames

/-- The plain machine needs more frames than it may have, or both come to related results. -/
def Paired (bound : Nat) (R : Machine → Machine → Prop) (x y : Except Failure Machine) : Prop :=
  y = .error (.stackOverflow bound) ∨ Agree R x y

variable {σ : Type} {cfg : Config} {m p : Machine} {k : Frame} {env : Env} {bound : Nat}

theorem Mirrors.matches (mirrors : Mirrors m p) : Matches m p :=
  ⟨mirrors.control, .inl mirrors.env, mirrors.val, mirrors.supply, mirrors.stack⟩

theorem Matches.refl (m : Machine) : Matches m m := ⟨rfl, .inl rfl, rfl, rfl, .refl _⟩

theorem Matches.depth_le (same : Matches m p) : m.stack.depth ≤ p.stack.depth := by
  rw [m.stack.depth_eq, p.stack.depth_eq]
  exact same.stack.length_le

/-- Where nothing is returned to a restore frame, the environments are the same. -/
theorem Matches.mirrors (same : Matches m p)
    (uncovered : m.control = .returning → ¬ m.stack.Covered) : Mirrors m p := by
  refine ⟨⟨?_, same.val, same.supply, same.stack⟩, same.control⟩
  rcases same.env with env | ⟨returning, covered⟩
  · exact env
  · exact absurd covered (uncovered returning)

theorem Paired.map {R R' : Machine → Machine → Prop} {x y : Except Failure Machine}
    (paired : Paired bound R x y) (f : Machine → Machine)
    (step : ∀ {m p}, R m p → R' (f m) (f p)) : Paired bound R' (x.map f) (y.map f) := by
  rcases paired with rfl | agree
  · exact .inl rfl
  · exact .inr (agree.map step)

theorem paired_ok {R : Machine → Machine → Prop} (related : R m p) :
    Paired bound R (.ok m) (.ok p) := .inr (.ok related)

/-! ### Parts of a dispatch -/

namespace Beside

theorem eval (beside : Beside m p) (e : Value) (env : Env) :
    Mirrors (m.eval e env) (p.eval e env) := ⟨⟨rfl, beside.val, beside.supply, beside.stack⟩, rfl⟩

theorem ret (beside : Beside m p) (v : Value) (env : Env) : Mirrors (m.ret v env) (p.ret v env) :=
  ⟨⟨rfl, rfl, beside.supply, beside.stack⟩, rfl⟩

theorem exit (beside : Beside m p) (reason : Value) : Mirrors (m.exit reason) (p.exit reason) :=
  ⟨⟨beside.env, beside.val, beside.supply, .nil⟩, rfl⟩

theorem fail (beside : Beside m p) (f : Failure) : Mirrors (m.fail f) (p.fail f) :=
  ⟨⟨beside.env, beside.val, beside.supply, .nil⟩, rfl⟩

theorem push (beside : Beside m p) (k : Frame) :
    Paired cfg.maxFrames Beside (m.push cfg.eliding k) (p.push cfg.plain k) := by
  unfold Machine.push
  have lower : m.stack.depth ≤ p.stack.depth := by
    rw [m.stack.depth_eq, p.stack.depth_eq]
    exact beside.stack.length_le
  by_cases room : p.stack.depth < cfg.maxFrames
  · have room' : m.stack.depth < cfg.maxFrames := Nat.lt_of_le_of_lt lower room
    rw [if_pos (show m.stack.depth < cfg.eliding.maxFrames from room'),
      if_pos (show p.stack.depth < cfg.plain.maxFrames from room)]
    exact paired_ok ⟨beside.env, beside.val, beside.supply, .keep k beside.stack⟩
  · rw [if_neg (show ¬ p.stack.depth < cfg.plain.maxFrames from room)]
    exact .inl rfl

theorem pushEval (beside : Beside m p) (k : Frame) (e : Value) (env : Env) :
    Paired cfg.maxFrames Mirrors ((m.push cfg.eliding k).map (·.eval e env))
      ((p.push cfg.plain k).map (·.eval e env)) :=
  (beside.push k).map (·.eval e env) fun pushed => pushed.eval e env

/-- A frame that is left out is the only difference that arises. -/
theorem pushRestore (beside : Beside m p) (env : Env) :
    Paired cfg.maxFrames Beside (m.pushRestore cfg.eliding env) (p.pushRestore cfg.plain env) := by
  have all : p.pushRestore cfg.plain env = p.push cfg.plain (.restore env) := by
    unfold Machine.pushRestore
    split <;> rfl
  rw [all]
  -- on top of a restore frame only the plain machine pushes another one
  by_cases covered : m.stack.Covered
  · obtain ⟨kept, rest, top⟩ := covered
    have none : m.pushRestore cfg.eliding env = .ok m := by
      unfold Machine.pushRestore
      rw [top]
      rfl
    rw [none]
    unfold Machine.push
    split
    · refine paired_ok ⟨beside.env, beside.val, beside.supply, ?_⟩
      have frames := beside.stack
      rw [top] at frames ⊢
      exact .drop env frames
    · exact .inl rfl
  · have one : m.pushRestore cfg.eliding env = m.push cfg.eliding (.restore env) := by
      unfold Machine.pushRestore
      split
      · rename_i top
        exact absurd ⟨_, _, top⟩ covered
      · rfl
    rw [one]
    exact beside.push (.restore env)

theorem evalSequence (beside : Beside m p) (first : Value) (rest : List Value) (env : Env) :
    Paired cfg.maxFrames Mirrors (m.evalSequence cfg.eliding first rest env)
      (p.evalSequence cfg.plain first rest env) := by
  cases rest with
  | nil => exact paired_ok (beside.eval first env)
  | cons next others => exact beside.pushEval _ first env

theorem enter (beside : Beside m p) (params : List Bytes) (body : Value) (captured : Env)
    (args : List Value) (env : Env) :
    Paired cfg.maxFrames Mirrors (m.enter cfg.eliding params body captured args env)
      (p.enter cfg.plain params body captured args env) :=
  (beside.pushRestore env).map _ fun pushed => pushed.eval _ _

end Beside

/-! ### Dispatches -/

/-- Dispatches that charge the same, act alike and leave machines that mirror each other. -/
structure Tally (bound : Nat) (alike : σ → σ → Prop) (d e : Dispatch σ) : Prop where
  charge : d.charge = e.charge
  state : alike d.state e.state
  machine : Paired bound Mirrors d.machine e.machine

end Machine

open Machine

/-- States that the acts of a host do not tell apart; nor do they tell a machine that becomes a
process from one that it matches. -/
structure World.Respects {σ : Type} (world : World σ) (alike : σ → σ → Prop) : Prop where
  refl : ∀ s, alike s s
  print : ∀ {s t} text, alike s t → alike (world.print text s) (world.print text t)
  send : ∀ {host s t} receiver msg, world.host = some host → alike s t →
    Agree alike (host.send receiver msg s) (host.send receiver msg t)
  receive : ∀ {host s t}, world.host = some host → alike s t →
    Option.Rel (fun a b => a.1 = b.1 ∧ alike a.2 b.2) (host.receive s) (host.receive t)
  fork : ∀ {host s t m p} birth, world.host = some host → Matches m p → alike s t →
    Agree (fun a b => a.1 = b.1 ∧ alike a.2 b.2) (host.fork birth m s) (host.fork birth p t)
  watch : ∀ {host s t} target, world.host = some host → alike s t →
    Agree alike (host.watch target s) (host.watch target t)

namespace Machine

variable {σ : Type} {cfg : Config} {world : World σ} {alike : σ → σ → Prop} {m p : Machine}
  {s t : σ}

theorem Tally.quiet {bound : Nat} {x y : Except Failure Machine} (same : alike s t)
    (paired : Paired bound Mirrors x y) :
    Tally bound alike (Machine.quiet s x) (Machine.quiet t y) := ⟨rfl, same, paired⟩

theorem Tally.fails {bound : Nat} (same : alike s t) (f : Failure) :
    Tally bound alike (Machine.quiet s (.error f)) (Machine.quiet t (.error f)) :=
  .quiet same (.inr (.error f))

namespace Beside

theorem perform (beside : Beside m p) (respects : world.Respects alike) {host : Host σ}
    (acting : world.host = some host) (same : alike s t) (act : Primitive) (args : List Value)
    (env : Env) :
    Tally cfg.maxFrames alike (m.perform cfg.eliding host act args env s)
      (p.perform cfg.plain host act args env t) := by
  unfold Machine.perform
  split
  · exact .quiet same (paired_ok (beside.ret _ env))
  · have forked := respects.fork .fork acting (beside.ret (.bool true) env).matches same
    generalize host.fork .fork (m.ret (.bool true) env) s = x,
      host.fork .fork (p.ret (.bool true) env) t = y at forked
    cases forked with
    | ok related => exact .quiet related.2 (paired_ok (beside.ret _ env))
    | error e => exact .fails same _
  · split
    · exact .fails same _
    · rename_i body captured _
      have one : ofFunction cfg.eliding body captured env =
          ofFunction cfg.plain body captured env := rfl
      rw [one]
      cases ofFunction cfg.plain body captured env with
      | error f => exact .fails same _
      | ok child =>
        have forked := respects.fork .spawn acting (.refl child) same
        dsimp only
        generalize host.fork .spawn child s = x, host.fork .spawn child t = y at forked
        cases forked with
        | ok related =>
          rename_i a b
          obtain ⟨pid, s'⟩ := a
          obtain ⟨pid', t'⟩ := b
          obtain ⟨rfl, alike'⟩ := related
          exact .quiet alike' (paired_ok (beside.ret _ env))
        | error e => exact .fails same _
  · exact .fails same _
  · rename_i receiver msg
    have sent := respects.send receiver msg.copy acting same
    generalize host.send receiver msg.copy s = x, host.send receiver msg.copy t = y at sent
    cases sent with
    | ok related => exact .quiet related (paired_ok (beside.ret _ env))
    | error e => exact .fails same _
  · exact .fails same _
  · have received := respects.receive acting same
    generalize host.receive s = x, host.receive t = y at received
    cases received with
    | none => exact .quiet same (paired_ok ⟨⟨rfl, beside.val, beside.supply, beside.stack⟩, rfl⟩)
    | some related =>
      rename_i a b
      obtain ⟨msg, s'⟩ := a
      obtain ⟨msg', t'⟩ := b
      obtain ⟨rfl, alike'⟩ := related
      exact .quiet alike' (paired_ok (beside.ret _ env))
  · rename_i target
    have watched := respects.watch target acting same
    generalize host.watch target s = x, host.watch target t = y at watched
    cases watched with
    | ok related => exact .quiet related (paired_ok (beside.ret _ env))
    | error e => exact .fails same _
  · exact .fails same _
  · exact .quiet same (paired_ok (beside.exit _))
  · exact .fails same _

theorem dispatch (beside : Beside m p) (respects : world.Respects alike) (same : alike s t)
    (target : Target) (args : List Value) (env : Env) :
    Tally cfg.maxFrames alike (m.dispatch cfg.eliding world target args env s)
      (p.dispatch cfg.plain world target args env t) := by
  cases target with
  | list => exact .quiet same (paired_ok (beside.ret _ env))
  | syscall name =>
    unfold Machine.dispatch
    dsimp only [Config.eliding, Config.plain]
    cases cfg.table.lookup name args.length with
    | error f => exact .fails same f
    | ok sc =>
      refine ⟨rfl, ?_, ?_⟩
      · dsimp only
        split
        · exact same
        · exact respects.print _ same
      · dsimp only
        cases (sc.call args).2 with
        | error f => exact .inr (.error f)
        | ok v => exact paired_ok (beside.ret v env)
  | primitive act =>
    unfold Machine.dispatch
    cases acting : world.host with
    | none => exact .fails same _
    | some host => exact beside.perform respects acting same act args env
  | apply params body captured => exact .quiet same (beside.enter params body captured args env)

theorem evalArgs (beside : Beside m p) (respects : world.Respects alike) (same : alike s t)
    (target : Target) (args : List Value) (env : Env) :
    Tally cfg.maxFrames alike (m.evalArgs cfg.eliding world target args env s)
      (p.evalArgs cfg.plain world target args env t) := by
  cases args with
  | nil => exact beside.dispatch respects same target [] env
  | cons e pending => exact .quiet same (beside.pushEval _ e env)

theorem letIn (beside : Beside m p) (same : alike s t) (bindings : List (Bytes × Value))
    (first : Value) (rest : List Value) (env : Env) :
    Tally cfg.maxFrames alike (m.evalForm cfg.eliding world (.letIn bindings first rest) env s)
      (p.evalForm cfg.plain world (.letIn bindings first rest) env t) := by
  refine .quiet same ?_
  have pushed : Paired cfg.maxFrames Beside _ _ := beside.pushRestore env
  generalize m.pushRestore cfg.eliding env = x, p.pushRestore cfg.plain env = y at pushed
  rcases pushed with rfl | agree
  · exact .inl rfl
  · cases agree with
    | error f => exact .inr (.error f)
    | ok beside =>
      cases bindings with
      | nil => exact beside.evalSequence first rest env
      | cons binding others => exact beside.pushEval _ _ env

theorem evalForm (beside : Beside m p) (respects : world.Respects alike) (same : alike s t)
    (form : Form) (env : Env) :
    Tally cfg.maxFrames alike (m.evalForm cfg.eliding world form env s)
      (p.evalForm cfg.plain world form env t) := by
  cases form with
  | value v => exact .quiet same (paired_ok (beside.ret v env))
  | lookup name =>
    refine .quiet same ?_
    cases env.lookup name with
    | error f => exact .inr (.error f)
    | ok v => exact paired_ok (beside.ret v env)
  | branch test yes no => exact .quiet same (beside.pushEval _ test env)
  | sequence first rest => exact .quiet same (beside.evalSequence first rest env)
  | define name expr => exact .quiet same (beside.pushEval _ expr env)
  | letIn bindings first rest => exact beside.letIn same bindings first rest env
  | lambda params body =>
    refine .quiet same ?_
    unfold close
    rw [beside.supply]
    exact paired_ok ⟨⟨rfl, rfl, by simp [Machine.ret], beside.stack⟩, rfl⟩
  | cond clauses =>
    cases clauses with
    | nil => exact .quiet same (paired_ok (beside.ret _ env))
    | cons clause others => exact .quiet same (beside.pushEval _ _ env)
  | list items => exact beside.evalArgs respects same .list items env
  | primitive act args => exact beside.evalArgs respects same (.primitive act) args env
  | syscall name args => exact beside.evalArgs respects same (.syscall name) args env
  | apply head args => exact .quiet same (beside.pushEval _ head env)

theorem resumeFrame (beside : Beside m p) (respects : world.Respects alike) (same : alike s t)
    (k : Frame) (v : Value) (env : Env) :
    Tally cfg.maxFrames alike (m.resumeFrame cfg.eliding world k v env s)
      (p.resumeFrame cfg.plain world k v env t) := by
  cases k with
  | branch yes no => exact .quiet same (paired_ok (beside.eval _ env))
  | sequence first rest => exact .quiet same (beside.evalSequence first rest env)
  | define name => exact .quiet same (paired_ok (beside.ret v _))
  | binding name others first rest =>
    cases others with
    | nil => exact .quiet same (beside.evalSequence first rest _)
    | cons binding others => exact .quiet same (beside.pushEval _ _ _)
  | restore saved => exact .quiet same (paired_ok (beside.ret v saved))
  | clause body others =>
    simp only [Machine.resumeFrame]
    by_cases truthy : v.truthy
    · rw [if_pos truthy, if_pos truthy]
      exact .quiet same (paired_ok (beside.eval body env))
    · rw [if_neg truthy, if_neg truthy]
      cases others with
      | nil => exact .quiet same (paired_ok (beside.ret _ env))
      | cons clause others => exact .quiet same (beside.pushEval _ _ env)
  | arguments target done pending =>
    cases pending with
    | nil => exact beside.dispatch respects same target _ env
    | cons e pending => exact .quiet same (beside.pushEval _ e env)
  | callee args =>
    simp only [Machine.resumeFrame]
    split
    · split
      · exact beside.evalArgs respects same _ args env
      · exact .fails same _
    · exact .fails same _
  | terminate => exact .quiet same (paired_ok (beside.exit _))

theorem evalStep (beside : Beside m p) (respects : world.Respects alike) (same : alike s t)
    (expr : Value) :
    Tally cfg.maxFrames alike (m.evalStep cfg.eliding world expr s)
      (p.evalStep cfg.plain world expr t) := by
  unfold Machine.evalStep
  rw [beside.env]
  dsimp only [Config.eliding, Config.plain]
  cases Form.read cfg.table expr with
  | error f => exact .fails same f
  | ok form => exact beside.evalForm respects same form p.env

end Beside

end Machine
end ProcLisp
