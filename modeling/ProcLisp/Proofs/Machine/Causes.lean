import ProcLisp.Proofs.Machine.Effects

/-!
# How machines come to their end

After a dispatch that does not fail the machine goes on, waits, or exits. It exits when a value is
handed to `terminate`, or returned to the end of a process's function; the latter is put on a stack
where a process is made and nowhere else.
-/

namespace ProcLisp.Machine

variable {σ : Type} {cfg : Config} {world : World σ} {m next : Machine} {s : σ} {env : Env}

/-- A machine goes on, with no end of a function on its stack that was not there before. -/
structure Continues (m next : Machine) : Prop where
  going : next.halted? = none
  below : .terminate ∈ next.stack.frames → .terminate ∈ m.stack.frames

theorem Continues.imp_below {mid : Machine} (continues : Continues mid next)
    (below : .terminate ∈ mid.stack.frames → .terminate ∈ m.stack.frames) : Continues m next :=
  ⟨continues.going, fun member => below (continues.below member)⟩

/-- The result of a dispatch is a failure, or a machine that goes on. -/
def Proceeds (m : Machine) (result : Except Failure Machine) : Prop :=
  ∀ next, result = .ok next → Continues m next

theorem proceeds_error (f : Failure) : Proceeds m (.error f) := nofun

theorem proceeds_ret (v : Value) (env : Env) : Proceeds m (.ok (m.ret v env)) := by
  rintro _ ⟨⟩
  exact ⟨rfl, id⟩

theorem proceeds_map_ret (result : Except Failure Value) (env : Env) :
    Proceeds m (result.map (m.ret · env)) := by
  cases result with
  | error f => exact proceeds_error f
  | ok v => exact proceeds_ret v env

theorem proceeds_eval (e : Value) (env : Env) : Proceeds m (.ok (m.eval e env)) := by
  rintro _ ⟨⟩
  exact ⟨rfl, id⟩

theorem Proceeds.of_below {mid : Machine} {result : Except Failure Machine}
    (proceeds : Proceeds mid result)
    (below : .terminate ∈ mid.stack.frames → .terminate ∈ m.stack.frames) : Proceeds m result :=
  fun next same => (proceeds next same).imp_below below

/-- Frames that a dispatch pushes are others than the end of a function. -/
theorem push_below {k : Frame} (other : k ≠ .terminate) (pushed : m.push cfg k = .ok next) :
    .terminate ∈ next.stack.frames → .terminate ∈ m.stack.frames := by
  unfold push at pushed
  split at pushed
  · obtain rfl := Except.ok.inj pushed
    intro member
    rcases List.mem_cons.mp member with same | below
    · exact absurd same.symm other
    · exact below
  · cases pushed

theorem proceeds_push {k : Frame} (other : k ≠ .terminate) (e : Value) (env : Env) :
    Proceeds m ((m.push cfg k).map (·.eval e env)) := by
  cases pushed : m.push cfg k with
  | error f => exact proceeds_error f
  | ok mid => exact (proceeds_eval e env).of_below (push_below other pushed)

theorem pushRestore_below {saved : Env} (pushed : m.pushRestore cfg saved = .ok next) :
    .terminate ∈ next.stack.frames → .terminate ∈ m.stack.frames := by
  unfold pushRestore at pushed
  split at pushed
  · split at pushed
    · obtain rfl := Except.ok.inj pushed
      exact id
    · exact push_below (by simp) pushed
  · exact push_below (by simp) pushed

theorem proceeds_sequence (first : Value) (rest : List Value) (env : Env) :
    Proceeds m (m.evalSequence cfg first rest env) := by
  cases rest with
  | nil => exact proceeds_eval first env
  | cons next others => exact proceeds_push (by simp) first env

theorem proceeds_enter (params : List Bytes) (body : Value) (captured : Env) (args : List Value)
    (env : Env) : Proceeds m (m.enter cfg params body captured args env) := by
  unfold enter
  cases pushed : m.pushRestore cfg env with
  | error f => exact proceeds_error f
  | ok mid => exact (proceeds_eval body _).of_below (pushRestore_below pushed)

/-! ### Dispatches -/

/-- What a dispatch without failure comes to. -/
inductive Comes (m next : Machine) (asks : Prop) (exits : Value → Prop) : Prop where
  | on (continues : Continues m next)
  | waits (cause : asks) (control : next.control = .waiting)
  | out {reason : Value} (cause : exits reason)
      (control : next.control = .terminated (.exited reason))

variable {asks asks' : Prop} {exits exits' : Value → Prop}

theorem Comes.imp (comes : Comes m next asks exits) (asking : asks → asks')
    (exiting : ∀ {reason}, exits reason → exits' reason) : Comes m next asks' exits' := by
  cases comes with
  | on continues => exact .on continues
  | waits cause control => exact .waits (asking cause) control
  | out cause control => exact .out (exiting cause) control

theorem Proceeds.comes {result : Except Failure Machine} (proceeds : Proceeds m result)
    (done : result = .ok next) : Comes m next asks exits :=
  .on (proceeds next done)

theorem comes_perform {host : Host σ} {p : Primitive} {args : List Value}
    (done : (m.perform cfg host p args env s).machine = .ok next) :
    Comes m next (p = .wait ∧ args = []) fun reason => p = .terminate ∧ args = [reason] := by
  unfold perform at done
  split at done
  · exact (proceeds_ret _ env).comes done
  · split at done
    · exact (proceeds_ret _ env).comes done
    · cases done
  · split at done
    · cases done
    · split at done
      · cases done
      · split at done
        · exact (proceeds_ret _ env).comes done
        · cases done
  · cases done
  · split at done
    · exact (proceeds_ret _ env).comes done
    · cases done
  · cases done
  · split at done
    · exact (proceeds_ret _ env).comes done
    · obtain rfl := Except.ok.inj done
      exact .waits ⟨rfl, rfl⟩ rfl
  · split at done
    · exact (proceeds_ret _ env).comes done
    · cases done
  · cases done
  · obtain rfl := Except.ok.inj done
    exact .out ⟨rfl, rfl⟩ rfl
  · cases done

theorem comes_dispatch {target : Target} {args : List Value}
    (done : (m.dispatch cfg world target args env s).machine = .ok next) :
    Comes m next (target = .primitive .wait ∧ args = [])
      fun reason => target = .primitive .terminate ∧ args = [reason] := by
  cases target with
  | list => exact (proceeds_ret _ env).comes done
  | syscall name =>
    simp only [dispatch] at done
    split at done
    · cases done
    · exact (proceeds_map_ret _ env).comes done
  | primitive p =>
    simp only [dispatch] at done
    split at done
    · cases done
    · refine (comes_perform done).imp ?_ ?_
      · rintro ⟨rfl, none⟩
        exact ⟨rfl, none⟩
      · rintro _ ⟨rfl, one⟩
        exact ⟨rfl, one⟩
  | apply params body captured => exact (proceeds_enter params body captured args env).comes done

/-- Without arguments nothing is handed to `terminate`. -/
theorem comes_evalArgs {target : Target} {args : List Value}
    (done : (m.evalArgs cfg world target args env s).machine = .ok next) :
    Comes m next (target = .primitive .wait ∧ args = []) fun _ => False := by
  cases args with
  | nil => exact (comes_dispatch done).imp id fun cause => nomatch cause.2
  | cons e pending => exact (proceeds_push (by simp) e env).comes done

theorem comes_evalForm {form : Form}
    (done : (m.evalForm cfg world form env s).machine = .ok next) :
    Comes m next (form = .primitive .wait []) fun _ => False := by
  cases form with
  | value v => exact (proceeds_ret v env).comes done
  | lookup name => exact (proceeds_map_ret _ env).comes done
  | branch test yes no => exact (proceeds_push (by simp) test env).comes done
  | sequence first rest => exact (proceeds_sequence first rest env).comes done
  | define name expr => exact (proceeds_push (by simp) expr env).comes done
  | letIn bindings first rest =>
    simp only [evalForm, quiet] at done
    split at done
    · cases done
    · rename_i mid pushed
      have below := pushRestore_below pushed
      split at done
      · exact ((proceeds_sequence first rest env).of_below below).comes done
      · exact ((proceeds_push (by simp) _ env).of_below below).comes done
  | lambda params body =>
    obtain rfl := Except.ok.inj done
    exact .on ⟨rfl, id⟩
  | cond clauses =>
    cases clauses with
    | nil => exact (proceeds_ret incompleteCond env).comes done
    | cons clause others => exact (proceeds_push (by simp) clause.1 env).comes done
  | list items => exact (comes_evalArgs done).imp (fun cause => by cases cause.1) id
  | primitive p args =>
    refine (comes_evalArgs done).imp ?_ id
    rintro ⟨same, rfl⟩
    rw [Target.primitive.inj same]
  | syscall name args => exact (comes_evalArgs done).imp (fun cause => by cases cause.1) id
  | apply head args => exact (proceeds_push (by simp) head env).comes done

/-- The frames that end a machine when they get the value `v`, and with which reason. -/
inductive Frame.Exits (v : Value) : Frame → Value → Prop where
  | returned : Exits v .terminate normalExit
  | terminated : Exits v (.arguments (.primitive .terminate) [] []) v

theorem comes_resumeFrame {k : Frame} {v : Value}
    (done : (m.resumeFrame cfg world k v env s).machine = .ok next) :
    Comes m next False (Frame.Exits v k) := by
  cases k with
  | branch yes no => exact (proceeds_eval _ env).comes done
  | sequence first rest => exact (proceeds_sequence first rest env).comes done
  | define name => exact (proceeds_ret v _).comes done
  | binding name others first rest =>
    cases others with
    | nil => exact (proceeds_sequence first rest _).comes done
    | cons binding others => exact (proceeds_push (by simp) binding.2 _).comes done
  | restore saved => exact (proceeds_ret v saved).comes done
  | clause body others =>
    simp only [resumeFrame] at done
    split at done
    · exact (proceeds_eval body env).comes done
    · cases others with
      | nil => exact (proceeds_ret incompleteCond env).comes done
      | cons clause others => exact (proceeds_push (by simp) clause.1 env).comes done
  | arguments target earlier pending =>
    cases pending with
    | cons e pending => exact (proceeds_push (by simp) e env).comes done
    | nil =>
      have filled : (v :: earlier).reverse ≠ [] := by simp
      refine (comes_dispatch done).imp (fun cause => filled cause.2) ?_
      rintro reason ⟨rfl, one⟩
      have lengths := congrArg List.length one
      obtain rfl : earlier = [] := by simpa using lengths
      obtain rfl : v = reason := (List.cons.inj one).1
      exact .terminated
  | callee args =>
    simp only [resumeFrame] at done
    split at done
    · split at done
      · exact (comes_evalArgs done).imp (fun cause => by cases cause.1) False.elim
      · cases done
    · cases done
  | terminate =>
    obtain rfl := Except.ok.inj done
    exact .out .returned rfl

/-- What makes a machine exit that goes on: the value that it returns to its innermost frame. -/
def Exits (m : Machine) (reason : Value) : Prop :=
  m.control = .returning ∧ ∃ k below, m.stack.frames = k :: below ∧ Frame.Exits m.val k reason

/-- The next thing that a machine does is to ask for a message. -/
def Asks (cfg : Config) (m : Machine) : Prop :=
  ∃ expr, m.control = .eval expr ∧ Form.read cfg.table expr = .ok (.primitive .wait [])

theorem frames_of_pop {stack rest : Stack} {k : Frame} (popped : stack.pop? = some (k, rest)) :
    stack.frames = k :: rest.frames := by
  obtain ⟨frames, depth, same⟩ := stack
  cases frames with
  | nil => cases popped
  | cons first others =>
    obtain ⟨rfl, rfl⟩ := Prod.mk.inj (Option.some.inj popped)
    rfl

theorem pop_of_frames {stack : Stack} {k : Frame} {below : List Frame}
    (frames : stack.frames = k :: below) : ∃ rest, stack.pop? = some (k, rest) := by
  obtain ⟨_, depth, same⟩ := stack
  obtain rfl := frames
  exact ⟨_, rfl⟩

theorem pop_eq_none_iff {stack : Stack} : stack.pop? = none ↔ stack.frames = [] := by
  obtain ⟨frames, depth, same⟩ := stack
  cases frames <;> simp [Stack.pop?]

/-- A dispatch fails, or the machine goes on, or it asked for a message that is not there, or it
exits with the reason it was given. -/
theorem comes_next {d : Dispatch σ} (found : m.next? cfg world s = some d)
    (done : d.machine = .ok next) : Comes m next (m.Asks cfg) m.Exits := by
  unfold next? at found
  split at found
  · rename_i expr evaluating
    obtain rfl := Option.some.inj found
    unfold evalStep at done
    split at done
    · cases done
    · rename_i form read
      refine (comes_evalForm done).imp ?_ False.elim
      rintro rfl
      exact ⟨expr, evaluating, read⟩
  · rename_i returning
    split at found
    · rename_i k rest popped
      obtain rfl := Option.some.inj found
      have frames := frames_of_pop popped
      cases comes_resumeFrame done with
      | on continues =>
        refine .on (continues.imp_below fun member => ?_)
        rw [frames]
        exact .tail k member
      | waits cause => exact cause.elim
      | out cause control => exact .out ⟨returning, k, _, frames, cause⟩ control
    · cases found
  · cases found

/-! ### The end of a run -/

theorem after_control_error {d : Dispatch σ} {f : Failure} (failed : d.machine = .error f) :
    (m.after d).control = .terminated (.failed f) := by
  simp [after, failed, fail]

theorem after_control_ok {d : Dispatch σ} (done : d.machine = .ok next) :
    (m.after d).control = next.control ∧ (m.after d).stack = next.stack := by
  simp [after, done]

theorem halted?_congr {m' : Machine} (same : m'.control = m.control) (going : m.halted? = none) :
    m'.halted? = none := by
  unfold halted? at going ⊢
  rw [same]
  split at going <;> simp_all

/-- A machine that goes on but has nothing to do has returned its value to nobody. -/
theorem out_of_work {c : Machine × σ} (going : c.1.halted? = none)
    (stuck : advance? cfg world c = none) :
    c.1.control = .returning ∧ c.1.stack.frames = [] := by
  rw [advance?_eq_none] at stuck
  unfold next? at stuck
  split at stuck
  · cases stuck
  · rename_i returning
    refine ⟨returning, ?_⟩
    split at stuck
    · cases stuck
    · rename_i empty
      exact pop_eq_none_iff.mp empty
  · unfold halted? at going
    cases control : c.1.control <;> simp_all

/-- The point of a run from which the last dispatch ends the machine, and how. -/
inductive Last (cfg : Config) (world : World σ) (c₀ : Machine × σ) : Ending → Prop where
  | failed {d : Dispatch σ} {f : Failure} (found : c₀.1.next? cfg world c₀.2 = some d)
      (failure : d.machine = .error f) : Last cfg world c₀ (.failed f)
  | exited {reason : Value} (cause : c₀.1.Exits reason) : Last cfg world c₀ (.exited reason)

/-- Where a machine stops that was going. -/
inductive Stopped (cfg : Config) (world : World σ) (start c : Machine × σ) : Prop where
  | finished (returning : c.1.control = .returning) (empty : c.1.stack.frames = [])
  | waiting (control : c.1.control = .waiting)
  | ended {k : Nat} {c₀ : Machine × σ} {ending : Ending}
      (reached : iterate cfg world k start = some c₀) (last : Last cfg world c₀ ending)
      (control : c.1.control = .terminated ending)

theorem stopped_of_stuck {start c : Machine × σ} {n : Nat} (going : start.1.halted? = none)
    (reached : iterate cfg world n start = some c) (stuck : advance? cfg world c = none) :
    Stopped cfg world start c := by
  cases n with
  | zero =>
    obtain rfl := Option.some.inj reached
    obtain ⟨returning, empty⟩ := out_of_work going stuck
    exact .finished returning empty
  | succ n =>
    rw [iterate_add] at reached
    obtain ⟨c₀, before, last⟩ := Option.bind_eq_some_iff.mp reached
    rw [iterate_one] at last
    obtain ⟨d, found, rfl⟩ := Option.map_eq_some_iff.mp last
    cases result : d.machine with
    | error f => exact .ended before (.failed found result) (after_control_error result)
    | ok next =>
      obtain ⟨control, -⟩ := after_control_ok (m := c₀.1) result
      cases comes_next found result with
      | on continues =>
        obtain ⟨returning, empty⟩ := out_of_work (halted?_congr control continues.going) stuck
        exact .finished returning empty
      | waits _ waiting => exact .waiting (control.trans waiting)
      | out cause exited => exact .ended before (.exited cause) (control.trans exited)

/-! ### Ends exclude each other -/

/-- In a process, what exits does not fail. -/
theorem Exits.succeeds {reason : Value} {host : Host σ} (exits : m.Exits reason) (world : World σ)
    (acting : world.host = some host) (cfg : Config) (s : σ) :
    ∃ d next, m.next? cfg world s = some d ∧ d.machine = .ok next := by
  obtain ⟨returning, k, below, frames, cause⟩ := exits
  obtain ⟨rest, popped⟩ := pop_of_frames frames
  cases cause with
  | returned => simp [next?, returning, popped, resumeFrame, quiet]
  | terminated => simp [next?, returning, popped, resumeFrame, dispatch, acting, perform, quiet]

theorem Exits.unique {r r' : Value} (exits : m.Exits r) (exits' : m.Exits r') : r = r' := by
  obtain ⟨-, k, below, frames, cause⟩ := exits
  obtain ⟨-, k', below', frames', cause'⟩ := exits'
  obtain ⟨rfl, -⟩ := List.cons.inj (frames.symm.trans frames')
  cases cause with
  | returned =>
    cases cause'
    rfl
  | terminated =>
    cases cause'
    rfl

theorem next?_of_empty (returning : m.control = .returning) (empty : m.stack.frames = []) :
    m.next? cfg world s = none := by
  simp [next?, returning, pop_eq_none_iff.mpr empty]

end ProcLisp.Machine
