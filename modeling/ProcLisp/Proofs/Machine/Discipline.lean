import Mathlib.Data.List.Chain
import ProcLisp.Proofs.Machine.Bounded
import ProcLisp.Proofs.Machine.Causes
import ProcLisp.Proofs.Machine.Sessions

/-!
# The discipline of the stack

A dispatch takes at most one frame off the stack and puts frames on it, each within the bound, and
never a restore frame on another one. So do the machines that a process makes of itself.
-/

namespace ProcLisp

open Machine (Config)

namespace Stack

/-- `k` with more frames on it, none of them beyond the bound and none a restore frame on another
one. -/
inductive Grown (cfg : Config) (k : Stack) : Stack → Prop where
  | same : Grown cfg k k
  | frame {k' : Stack} {f : Frame} (before : Grown cfg k k') (plain : f.isRestore = false)
      (room : k'.depth < cfg.maxFrames) : Grown cfg k (k'.push f)
  | scope {k' : Stack} (before : Grown cfg k k') (bare : ¬ k'.Covered) (env : Env)
      (room : k'.depth < cfg.maxFrames) : Grown cfg k (k'.push (.restore env))

/-- No two adjacent frames restore. -/
def Spread (k : Stack) : Prop :=
  k.frames.IsChain fun above below => above.isRestore = false ∨ below.isRestore = false

/-- How many frames do not restore. -/
def plain (k : Stack) : Nat := k.frames.countP (!·.isRestore)

structure Disciplined (cfg : Config) (k : Stack) : Prop where
  bounded : k.depth ≤ cfg.maxFrames
  spread : k.Spread

variable {cfg : Config} {k k' : Stack} {f : Frame}

theorem eq_of_frames (same : k.frames = k'.frames) : k = k' := by
  obtain ⟨frames, depth, rfl⟩ := k
  obtain ⟨frames', depth', rfl⟩ := k'
  cases same
  rfl

theorem Disciplined.empty (cfg : Config) : Disciplined cfg empty := ⟨Nat.zero_le _, .nil⟩

theorem Disciplined.below (disciplined : (k.push f).Disciplined cfg) : k.Disciplined cfg :=
  ⟨Nat.le_of_succ_le disciplined.bounded, disciplined.spread.tail⟩

theorem Disciplined.grown (disciplined : k.Disciplined cfg) (grown : k.Grown cfg k') :
    k'.Disciplined cfg := by
  induction grown with
  | same => exact disciplined
  | frame before plain room ih =>
    exact ⟨room, ih.spread.cons fun below _ => .inl plain⟩
  | @scope k' before bare env room ih =>
    refine ⟨room, ih.spread.cons fun below top => .inr ?_⟩
    obtain ⟨rest, frames⟩ := List.head?_eq_some_iff.mp top
    cases below with
    | restore saved => exact absurd ⟨saved, rest, frames⟩ bare
    | _ => rfl

theorem Grown.suffix (grown : k.Grown cfg k') : k.frames <:+ k'.frames := by
  induction grown with
  | same => exact List.suffix_refl _
  | frame _ _ _ ih | scope _ _ _ _ ih => exact ih.trans (List.suffix_cons _ _)

/-- Every other frame, at least, does not restore. -/
theorem Spread.depth_le (spread : k.Spread) : k.depth ≤ 2 * k.plain + 1 := by
  obtain ⟨frames, depth, rfl⟩ := k
  -- with a frame on top that does not restore there is one frame to spare
  suffices both : frames.length ≤ 2 * frames.countP (!·.isRestore) + 1 ∧
      ((∀ f, frames.head? = some f → f.isRestore = false) →
        frames.length ≤ 2 * frames.countP (!·.isRestore)) from both.1
  simp only [Spread] at spread
  induction frames with
  | nil => exact ⟨Nat.zero_le _, fun _ => Nat.zero_le _⟩
  | cons f rest ih =>
    have ⟨below, above⟩ := List.isChain_cons.mp spread
    have ⟨fits, spare⟩ := ih above
    cases restores : f.isRestore with
    | true =>
      have count : (f :: rest).countP (!·.isRestore) = rest.countP (!·.isRestore) := by
        simp [restores]
      have bare := spare fun g top => (below g top).resolve_left (by simp [restores])
      rw [count, List.length_cons]
      refine ⟨Nat.succ_le_succ bare, fun other => ?_⟩
      cases restores.symm.trans (other f rfl)
    | false =>
      have count : (f :: rest).countP (!·.isRestore) = rest.countP (!·.isRestore) + 1 := by
        simp [restores]
      rw [count, List.length_cons]
      omega

end Stack

namespace Machine

variable {σ : Type}

/-- The failure is what a syscall answers to these arguments, or what the host does to the act that
they are for. -/
inductive Foreign (cfg : Config) (world : World σ) (s : σ) :
    Target → List Value → Failure → Prop where
  | syscall {name : Bytes} {args : List Value} {sc : Syscall} {f : Failure}
      (found : cfg.table.lookup name args.length = .ok sc) (failed : (sc.call args).2 = .error f) :
      Foreign cfg world s (.syscall name) args f
  | send {host : Host σ} {receiver : Pid} {msg : Value} {e : Trouble}
      (acting : world.host = some host) (refused : host.send receiver msg.copy s = .error e) :
      Foreign cfg world s (.primitive .send) [.pid receiver, msg] e.toFailure
  | fork {host : Host σ} {child : Machine} {e : Trouble} (acting : world.host = some host)
      (refused : host.fork .fork child s = .error e) :
      Foreign cfg world s (.primitive .fork) [] e.toFailure
  | spawn {host : Host σ} {v : Value} {child : Machine} {e : Trouble}
      (acting : world.host = some host) (refused : host.fork .spawn child s = .error e) :
      Foreign cfg world s (.primitive .spawn) [v] e.toFailure
  | watch {host : Host σ} {target : Pid} {e : Trouble} (acting : world.host = some host)
      (refused : host.watch target s = .error e) :
      Foreign cfg world s (.primitive .watch) [.pid target] e.toFailure

/-- The host did what the machine asked for, other than a fork. -/
inductive Acted (world : World σ) (s : σ) : σ → Prop where
  | send {host : Host σ} {receiver : Pid} {msg : Value} {s' : σ} (acting : world.host = some host)
      (sent : host.send receiver msg s = .ok s') : Acted world s s'
  | receive {host : Host σ} {msg : Value} {s' : σ} (acting : world.host = some host)
      (received : host.receive s = some (msg, s')) : Acted world s s'
  | watch {host : Host σ} {target : Pid} {s' : σ} (acting : world.host = some host)
      (watched : host.watch target s = .ok s') : Acted world s s'

/-- What becomes of a stack `k`. The failures that look like an overflow are `excused`. -/
inductive Lands (cfg : Config) (k : Stack) (excused : Failure → Prop) :
    Except Failure Machine → Prop where
  | goes {next : Machine} (grown : k.Grown cfg next.stack) : Lands cfg k excused (.ok next)
  | ends {next : Machine} (ended : next.ending?.isSome) (empty : next.stack = .empty) :
      Lands cfg k excused (.ok next)
  | fails {f : Failure} (overflow : f.kind = ErrorKind.stackOverflow → excused f) :
      Lands cfg k excused (.error f)

/-- The stack of a child: that of the machine, or that of a process that runs a function. -/
inductive Born (cfg : Config) (k : Stack) (child : Machine) : Prop where
  | fork (same : child.stack = k)
  | spawn (grown : (Stack.empty.push .terminate).Grown cfg child.stack)

/-- What a dispatch does with the stack `k` that it works on, and for whom. -/
inductive Deals (cfg : Config) (world : World σ) (s : σ) (k : Stack)
    (excused : Failure → Prop) : Dispatch σ → Prop where
  | quiet {result : Except Failure Machine} (lands : Lands cfg k excused result) :
      Deals cfg world s k excused (quiet s result)
  | call {printed : Bytes} {charge : Nat} {result : Except Failure Machine}
      (lands : Lands cfg k excused result) :
      Deals cfg world s k excused
        { state := if printed.isEmpty then s else world.print printed s, charge, machine := result }
  | acted {s' : σ} {result : Except Failure Machine} (act : Acted world s s')
      (lands : Lands cfg k excused result) : Deals cfg world s k excused (Machine.quiet s' result)
  | forked {host : Host σ} {birth : Birth} {child : Machine} {pid : Pid} {s' : σ}
      {result : Except Failure Machine} (acting : world.host = some host)
      (accepted : host.fork birth child s = .ok (pid, s')) (born : Born cfg k child)
      (lands : Lands cfg k excused result) : Deals cfg world s k excused (Machine.quiet s' result)

variable {cfg : Config} {world : World σ} {s : σ} {k : Stack} {excused : Failure → Prop}
  {m : Machine}

theorem Deals.lands {d : Dispatch σ} (deals : Deals cfg world s k excused d) :
    Lands cfg k excused d.machine := by
  cases deals <;> assumption

theorem Deals.goes {next : Machine} (grown : k.Grown cfg next.stack) :
    Deals cfg world s k excused (Machine.quiet s (.ok next)) := .quiet (.goes grown)

theorem Deals.fails {kind : Bytes} {payload : Value} (other : kind ≠ ErrorKind.stackOverflow) :
    Deals cfg world s k excused (Machine.quiet s (.error (.raise kind payload))) :=
  .quiet (.fails fun same => absurd same other)

theorem Deals.refused {f : Failure} (foreign : excused f) :
    Deals cfg world s k excused (Machine.quiet s (.error f)) := .quiet (.fails fun _ => foreign)

/-! ### New frames -/

section NewFrames

variable (before : k.Grown cfg m.stack)

include before

/-- A scope has its restore frame on top, a new one or one that was there. -/
theorem pushRestore_grown (elide : cfg.elide = true) (env : Env) :
    (∃ next, m.pushRestore cfg env = .ok next ∧ k.Grown cfg next.stack) ∨
      m.pushRestore cfg env = .error (.stackOverflow cfg.maxFrames) ∧
        cfg.maxFrames ≤ m.stack.depth := by
  unfold pushRestore
  split
  case h_1 => exact .inl ⟨m, if_pos elide, before⟩
  case h_2 other =>
    have bare : ¬ m.stack.Covered := fun ⟨saved, rest, frames⟩ => other saved rest frames
    unfold push
    split
    case isTrue room => exact .inl ⟨_, rfl, .scope before bare env room⟩
    case isFalse none => exact .inr ⟨rfl, by omega⟩

variable (tight : cfg.maxFrames ≤ m.stack.depth → excused (.stackOverflow cfg.maxFrames))

include tight

theorem push_lands {f : Frame} (plain : f.isRestore = false) (e : Value) (env : Env) :
    Lands cfg k excused ((m.push cfg f).map (·.eval e env)) := by
  unfold push
  split
  case isTrue room => exact .goes (.frame before plain room)
  case isFalse none => exact .fails fun _ => tight (by omega)

theorem evalSequence_lands (first : Value) (rest : List Value) (env : Env) :
    Lands cfg k excused (m.evalSequence cfg first rest env) := by
  cases rest with
  | nil => exact .goes before
  | cons next others => exact push_lands before tight rfl first env

theorem enter_lands (elide : cfg.elide = true) (params : List Bytes) (body : Value)
    (captured : Env) (args : List Value) (env : Env) :
    Lands cfg k excused (m.enter cfg params body captured args env) := by
  unfold enter
  rcases pushRestore_grown before elide env with ⟨next, pushed, grown⟩ | ⟨overflow, none⟩
  · rw [pushed]
    exact .goes grown
  · rw [overflow]
    exact .fails fun _ => tight none

end NewFrames

/-- A machine for a function has the frame that ends the process at the bottom. -/
theorem ofFunction_born (elide : cfg.elide = true) (body : Value) (captured env : Env) :
    (∃ child, ofFunction cfg body captured env = .ok child ∧
        (Stack.empty.push .terminate).Grown cfg child.stack) ∨
      ofFunction cfg body captured env = .error (.stackOverflow cfg.maxFrames) ∧
        cfg.maxFrames < 2 := by
  unfold ofFunction enter
  rcases pushRestore_grown (m := { env := env, stack := Stack.empty.push .terminate }) .same
    elide env with ⟨next, pushed, grown⟩ | ⟨overflow, none⟩
  · exact .inl ⟨_, congrArg (Except.map _) pushed, grown⟩
  · exact .inr ⟨congrArg (Except.map _) overflow, Nat.lt_succ_of_le none⟩

/-! ### Dispatches -/

theorem lookup_error {table : SyscallTable} {name : Bytes} {argc : Int} {f : Failure}
    (missing : table.lookup name argc = .error f) : f = .syscallNotFound name argc := by
  unfold SyscallTable.lookup at missing
  split at missing
  · split at missing
    · cases missing
    · exact (Except.error.inj missing).symm
  · exact (Except.error.inj missing).symm

section Dispatches

variable (elide : cfg.elide = true)

include elide

theorem perform_deals {host : Host σ} (acting : world.host = some host)
    (tight : cfg.maxFrames < 2 → excused (.stackOverflow cfg.maxFrames)) (stack : m.stack = k)
    (p : Primitive) (args : List Value)
    (foreign : ∀ f, Foreign cfg world s (.primitive p) args f → excused f) (env : Env) :
    Deals cfg world s k excused (m.perform cfg host p args env s) := by
  subst stack
  unfold perform
  split
  · exact .goes .same
  · split
    case h_1 accepted => exact .forked acting accepted (.fork rfl) (.goes .same)
    case h_2 refused => exact .refused (foreign _ (.fork acting refused))
  · split
    · exact .fails (by decide)
    split
    case h_1 f failed =>
      rcases ofFunction_born elide _ _ env with ⟨child, made, -⟩ | ⟨made, small⟩
      · cases failed.symm.trans made
      · obtain rfl := Except.error.inj (failed.symm.trans made)
        exact .quiet (.fails fun _ => tight small)
    case h_2 child made =>
      rcases ofFunction_born elide _ _ env with ⟨other, same, grown⟩ | ⟨same, -⟩
      · obtain rfl := Except.ok.inj (made.symm.trans same)
        split
        case h_1 accepted => exact .forked acting accepted (.spawn grown) (.goes .same)
        case h_2 refused => exact .refused (foreign _ (.spawn acting refused))
      · cases made.symm.trans same
  · exact .fails (by decide)
  · split
    case h_1 sent => exact .acted (.send acting sent) (.goes .same)
    case h_2 refused => exact .refused (foreign _ (.send acting refused))
  · exact .fails (by decide)
  · split
    case h_1 received => exact .acted (.receive acting received) (.goes .same)
    case h_2 => exact .goes .same
  · split
    case h_1 watched => exact .acted (.watch acting watched) (.goes .same)
    case h_2 refused => exact .refused (foreign _ (.watch acting refused))
  · exact .fails (by decide)
  · exact .quiet (.ends rfl rfl)
  · exact .fails (by decide)

/-- What may overflow: one frame more than there is room for, or the two of a new process. -/
def Tight (cfg : Config) (k : Stack) : Prop := cfg.maxFrames ≤ k.depth ∨ cfg.maxFrames < 2

variable (tight : Tight cfg k → excused (.stackOverflow cfg.maxFrames)) (stack : m.stack = k)

include tight stack

theorem dispatch_deals (target : Target) (args : List Value)
    (foreign : ∀ f, Foreign cfg world s target args f → excused f) (env : Env) :
    Deals cfg world s k excused (m.dispatch cfg world target args env s) := by
  have before : k.Grown cfg m.stack := stack ▸ .same
  cases target with
  | list => exact .goes before
  | syscall name =>
    simp only [dispatch]
    split
    case h_1 f missing =>
      obtain rfl := lookup_error missing
      exact .fails (by decide)
    case h_2 sc found =>
      refine .call ?_
      cases answer : (sc.call args).2 with
      | ok v => exact .goes before
      | error f => exact .fails fun _ => foreign f (.syscall found answer)
  | primitive p =>
    simp only [dispatch]
    split
    case h_1 => exact .fails (by decide)
    case h_2 acting =>
      exact perform_deals elide acting (fun small => tight (.inr small)) stack p args foreign env
  | apply params body captured =>
    exact .quiet (enter_lands before (fun none => tight (.inl (stack ▸ none))) elide ..)

theorem evalArgs_deals (target : Target) (args : List Value)
    (foreign : ∀ f, Foreign cfg world s target [] f → excused f) (env : Env) :
    Deals cfg world s k excused (m.evalArgs cfg world target args env s) := by
  have before : k.Grown cfg m.stack := stack ▸ .same
  cases args with
  | nil => exact dispatch_deals elide tight stack target [] foreign env
  | cons e pending =>
    exact .quiet (push_lands before (fun none => tight (.inl (stack ▸ none))) rfl e env)

theorem resumeFrame_deals (f : Frame) (v : Value)
    (foreign : ∀ target done failure, f = .arguments target done [] →
      Foreign cfg world s target (v :: done).reverse failure → excused failure) (env : Env) :
    Deals cfg world s k excused (m.resumeFrame cfg world f v env s) := by
  have before : k.Grown cfg m.stack := stack ▸ .same
  have room : cfg.maxFrames ≤ m.stack.depth → excused (.stackOverflow cfg.maxFrames) :=
    fun none => tight (.inl (stack ▸ none))
  cases f with
  | branch | define | restore => exact .goes before
  | sequence first rest => exact .quiet (evalSequence_lands before room first rest env)
  | binding name others first rest =>
    cases others with
    | nil => exact .quiet (evalSequence_lands before room first rest _)
    | cons b others => exact .quiet (push_lands before room rfl b.2 _)
  | clause body others =>
    simp only [resumeFrame]
    split
    · exact .goes before
    · split
      · exact .goes before
      · exact .quiet (push_lands before room rfl _ env)
  | arguments target done pending =>
    cases pending with
    | nil => exact dispatch_deals elide tight stack target _ (foreign target done · rfl) env
    | cons e pending => exact .quiet (push_lands before room rfl e env)
  | callee args =>
    simp only [resumeFrame]
    split
    · split
      · exact evalArgs_deals elide tight stack _ args (fun _ none => by cases none) env
      · exact .fails (by decide)
    · exact .fails (by decide)
  | terminate => exact .quiet (.ends rfl rfl)

omit tight in
theorem evalForm_deals (form : Form) (env : Env) :
    Deals cfg world s k (fun _ => True) (m.evalForm cfg world form env s) := by
  have before : k.Grown cfg m.stack := stack ▸ .same
  cases form with
  | value | lambda => exact .goes before
  | lookup name =>
    simp only [evalForm]
    cases env.lookup name with
    | ok v => exact .goes before
    | error f => exact .quiet (.fails fun _ => trivial)
  | branch test _ _ => exact .quiet (push_lands before (fun _ => trivial) rfl test env)
  | sequence first rest =>
    exact .quiet (evalSequence_lands before (fun _ => trivial) first rest env)
  | define _ expr => exact .quiet (push_lands before (fun _ => trivial) rfl expr env)
  | letIn bindings first rest =>
    refine .quiet ?_
    rcases pushRestore_grown before elide env with ⟨next, pushed, grown⟩ | ⟨overflow, -⟩
    · rw [pushed]
      cases bindings with
      | nil => exact evalSequence_lands grown (fun _ => trivial) first rest env
      | cons b others => exact push_lands grown (fun _ => trivial) rfl b.2 env
    · rw [overflow]
      exact .fails fun _ => trivial
  | cond clauses =>
    cases clauses with
    | nil => exact .goes before
    | cons clause others => exact .quiet (push_lands before (fun _ => trivial) rfl clause.1 env)
  | list args | primitive _ args | syscall _ args =>
    exact evalArgs_deals elide (fun _ => trivial) stack _ args (fun _ _ => trivial) env
  | apply head args => exact .quiet (push_lands before (fun _ => trivial) rfl head env)

end Dispatches

/-- What may look like an overflow when a frame `f` on `k` is resumed. -/
inductive Excused (cfg : Config) (world : World σ) (s : σ) (k : Stack) (f : Frame) (v : Value) :
    Failure → Prop where
  | tight (tight : Tight cfg k) : Excused cfg world s k f v (.stackOverflow cfg.maxFrames)
  | foreign {target : Target} {done : List Value} {failure : Failure}
      (last : f = .arguments target done [])
      (answer : Foreign cfg world s target (v :: done).reverse failure) :
      Excused cfg world s k f v failure

/-- What the next dispatch does. One that resumes a frame works on the stack below it, and overflows
only where that has no room for a frame. -/
theorem next?_deals (elide : cfg.elide = true) {d : Dispatch σ}
    (next : m.next? cfg world s = some d) :
    (∃ e, m.control = .eval e ∧ Deals cfg world s m.stack (fun _ => True) d) ∨
      ∃ f k, m.control = .returning ∧ m.stack = k.push f ∧
        Deals cfg world s k (Excused cfg world s k f m.val) d := by
  unfold next? at next
  split at next
  case h_1 e control =>
    obtain rfl := Option.some.inj next
    refine .inl ⟨e, control, ?_⟩
    unfold evalStep
    split
    · exact .quiet (.fails fun _ => trivial)
    · exact evalForm_deals elide rfl _ m.env
  case h_2 control =>
    split at next
    case h_1 f k popped =>
      obtain rfl := Option.some.inj next
      exact .inr ⟨f, k, control, Stack.eq_of_frames (frames_of_pop popped),
        resumeFrame_deals (m := { m with stack := k }) elide .tight rfl f m.val
          (fun _ _ _ => .foreign) m.env⟩
    case h_2 => cases next
  case h_3 => cases next

end Machine
end ProcLisp
