import ProcLisp.Proofs.Machine.Reachable
import ProcLisp.Proofs.Machine.Code
import ProcLisp.Proofs.Syscall.Failures
import ProcLisp.Proofs.Syscall.Likeness
import ProcLisp.Proofs.Value.Clean

/-!
# Reserved names stay unbound

Names are checked where code is read, and bound later, when a frame gets its value. So a machine is
clean if all code, values and environments that it holds are; then a dispatch hands nothing else to
the world, and gets to a machine that is clean again.
-/

namespace ProcLisp

open Machine Likeness

/-! ### Reading -/

namespace Form

theorem Names.clean {sf : SpecialForm} {args : List Value} {v : Value} (named : Names sf args v)
    (clean : ∀ e ∈ args, e.Clean) : v.Clean := by
  cases named with
  | define => exact clean _ List.mem_cons_self
  | paired member =>
    exact ((clean _ List.mem_cons_self).items _ member).items _ List.mem_cons_self
  | flat => exact (clean _ List.mem_cons_self).items _ (by simp)
  | lambda member => exact (clean _ List.mem_cons_self).items _ member

/-- What is read amiss in clean code fails with a part of it. -/
theorem Misshapen.clean {expr : Value} {f : Failure} (misshapen : Misshapen expr f)
    (clean : expr.Clean) : f.Clean := by
  have later {head : Value} {args : List Value} (clean : (Value.list (head :: args)).Clean) :
      ∀ e ∈ args, e.Clean := fun e member => clean.items e (List.mem_cons_of_mem _ member)
  cases misshapen with
  | special => exact Failure.clean_raise _ clean
  | name word wanted => exact Failure.clean_raise _ (wanted.clean (later clean))
  | bindings => exact Failure.clean_raise _ (later clean _ List.mem_cons_self)
  | arity =>
    refine Failure.clean_raise _ (.list ?_)
    simp only [List.forall_mem_cons]
    exact ⟨.sym _, .int _, .int _, List.forall_mem_nil _⟩

theorem read_cleanly (table : SyscallTable) {expr : Value} (clean : expr.Clean) :
    Cleanly unreserved.FormCode (read table expr) := by
  cases found : read table expr with
  | ok form => exact formCode_read (alike_of_clean clean) found
  | error f => exact (read_fault found).clean clean

end Form

/-! ### Machines -/

def Target.Clean : Target → Prop
  | .apply params body env =>
    (∀ s ∈ params, isReserved s = false) ∧ body.Clean ∧ env.Clean
  | _ => True

/-- Code, values and environments of a frame are clean, and the names that it binds are free. -/
def Frame.Clean : Frame → Prop
  | .branch yes no => yes.Clean ∧ no.Clean
  | .sequence first rest => first.Clean ∧ ∀ e ∈ rest, e.Clean
  | .define name => isReserved name = false
  | .binding name others first rest =>
    isReserved name = false ∧ (∀ b ∈ others, isReserved b.1 = false ∧ b.2.Clean) ∧
      first.Clean ∧ ∀ e ∈ rest, e.Clean
  | .restore env => env.Clean
  | .clause body others => body.Clean ∧ ∀ c ∈ others, c.1.Clean ∧ c.2.Clean
  | .arguments target done pending =>
    target.Clean ∧ (∀ v ∈ done, v.Clean) ∧ ∀ e ∈ pending, e.Clean
  | .callee args => ∀ e ∈ args, e.Clean
  | .terminate => True

/-- Code and exit reasons are clean. A failure is clean or one of those for which acts were refused.
-/
def Control.Clean (refused : Failure → Prop) : Control → Prop
  | .eval expr => expr.Clean
  | .terminated (.exited reason) => reason.Clean
  | .terminated (.failed f) => f.Clean ∨ refused f
  | _ => True

/-- All that the machine holds: its code or the reason of its end, the current environment, the
last value, and every frame. -/
structure Machine.Clean (refused : Failure → Prop) (m : Machine) : Prop where
  control : m.control.Clean refused
  env : m.env.Clean
  val : m.val.Clean
  frames : ∀ k ∈ m.stack.frames, k.Clean

/-- What is handed over in an act is clean. -/
def Deed.Clean (refused : Failure → Prop) : Deed → Prop
  | .sent _ msg | .received msg => msg.Clean
  | .forked _ child _ => child.Clean refused
  | .printed _ | .watched _ => True

/-- An act that comes to something of which `P` is known, or is refused. -/
def Answered {α : Type} (refused : Failure → Prop) (P : α → Prop) : Except Trouble α → Prop
  | .ok a => P a
  | .error trouble => refused trouble.toFailure

/-- As long as the host gets nothing unclean, it delivers clean messages only. What it relies on for
that is kept in its state. It may refuse any act, for one of the reasons `refused`. -/
structure World.Delivers {σ : Type} (world : World σ) (refused : Failure → Prop)
    (P : σ → Prop) : Prop where
  print : ∀ {text s}, P s → P (world.print text s)
  send : ∀ {host receiver msg s}, world.host = some host → msg.Clean → P s →
    Answered refused P (host.send receiver msg s)
  receive : ∀ {host msg s s'}, world.host = some host → host.receive s = some (msg, s') → P s →
    msg.Clean ∧ P s'
  fork : ∀ {host birth child s}, world.host = some host → child.Clean refused → P s →
    Answered refused (fun a => P a.2) (host.fork birth child s)
  watch : ∀ {host target s}, world.host = some host → P s → Answered refused P (host.watch target s)

variable {σ : Type} {cfg : Config} {world : World σ} {refused : Failure → Prop} {P : σ → Prop}
  {m : Machine} {s : σ} {e captured : Env} {v expr first : Value} {args rest : List Value}
  {params : List Bytes}

theorem Answered.map {α β : Type} {P : α → Prop} {Q : β → Prop} {x : Except Trouble α} {f : α → β}
    (answers : Answered refused P x) (step : ∀ {a}, P a → Q (f a)) :
    Answered refused Q (x.map f) := by
  cases x with
  | ok a => exact step answers
  | error trouble => exact answers

/-- What holds of clean acts is kept of the record. -/
theorem World.Delivers.recording (delivers : world.Delivers refused P) {Q : Deed → Prop}
    (clean : ∀ deed, deed.Clean refused → Q deed) :
    world.recording.Delivers refused fun x => P x.1 ∧ ∀ deed ∈ x.2, Q deed where
  print := fun ⟨holds, deeds⟩ =>
    ⟨delivers.print holds, List.forall_mem_cons.mpr ⟨clean _ trivial, deeds⟩⟩
  send := by
    rintro _ receiver msg s acting sent ⟨holds, deeds⟩
    obtain ⟨host, found, rfl⟩ := Option.map_eq_some_iff.mp acting
    exact (delivers.send found sent holds).map fun kept =>
      ⟨kept, List.forall_mem_cons.mpr ⟨clean (.sent receiver msg) sent, deeds⟩⟩
  receive := by
    rintro _ msg s s' acting received ⟨holds, deeds⟩
    obtain ⟨host, found, rfl⟩ := Option.map_eq_some_iff.mp acting
    obtain ⟨mail, there, same⟩ := Option.map_eq_some_iff.mp received
    obtain ⟨rfl, rfl⟩ := Prod.mk.inj same
    obtain ⟨delivered, kept⟩ := delivers.receive found there holds
    exact ⟨delivered, kept, List.forall_mem_cons.mpr ⟨clean (.received _) delivered, deeds⟩⟩
  fork := by
    rintro _ birth child s acting born ⟨holds, deeds⟩
    obtain ⟨host, found, rfl⟩ := Option.map_eq_some_iff.mp acting
    exact (delivers.fork found born holds).map fun {a} kept =>
      ⟨kept, List.forall_mem_cons.mpr ⟨clean (.forked birth child a.1) born, deeds⟩⟩
  watch := by
    rintro _ target s acting ⟨holds, deeds⟩
    obtain ⟨host, found, rfl⟩ := Option.map_eq_some_iff.mp acting
    exact (delivers.watch found holds).map fun kept =>
      ⟨kept, List.forall_mem_cons.mpr ⟨clean (.watched target) trivial, deeds⟩⟩

namespace Machine.Clean

theorem eval (clean : m.Clean refused) (code : expr.Clean) (env : e.Clean) :
    (m.eval expr e).Clean refused := ⟨code, env, clean.val, clean.frames⟩

theorem ret (clean : m.Clean refused) (value : v.Clean) (env : e.Clean) :
    (m.ret v e).Clean refused := ⟨trivial, env, value, clean.frames⟩

theorem exit (clean : m.Clean refused) (reason : v.Clean) : (m.exit v).Clean refused :=
  ⟨reason, clean.env, clean.val, nofun⟩

theorem fail (clean : m.Clean refused) {f : Failure} (failure : f.Clean ∨ refused f) :
    (m.fail f).Clean refused :=
  ⟨failure, clean.env, clean.val, nofun⟩

theorem push (clean : m.Clean refused) (cfg : Config) {k : Frame} (frame : k.Clean) :
    Cleanly (Machine.Clean refused) (m.push cfg k) := by
  unfold Machine.push
  split
  · exact ⟨clean.control, clean.env, clean.val, List.forall_mem_cons.mpr ⟨frame, clean.frames⟩⟩
  · exact Failure.clean_raise _ (.int _)

theorem pushEval (clean : m.Clean refused) {k : Frame} (frame : k.Clean) (code : expr.Clean)
    (env : e.Clean) : Cleanly (Machine.Clean refused) ((m.push cfg k).map (·.eval expr e)) :=
  (clean.push cfg frame).map fun pushed => pushed.eval code env

theorem pushRestore (clean : m.Clean refused) (cfg : Config) (env : e.Clean) :
    Cleanly (Machine.Clean refused) (m.pushRestore cfg e) := by
  have pushed : Cleanly (Machine.Clean refused) (m.push cfg (.restore e)) := clean.push cfg env
  unfold Machine.pushRestore
  split
  · split
    · exact clean
    · exact pushed
  · exact pushed

theorem evalSequence (clean : m.Clean refused) (code : first.Clean) (later : ∀ e ∈ rest, e.Clean)
    (env : e.Clean) : Cleanly (Machine.Clean refused) (m.evalSequence cfg first rest e) := by
  cases rest with
  | nil => exact clean.eval code env
  | cons next others =>
    exact clean.pushEval (List.forall_mem_cons.mp later) code env

theorem enter (clean : m.Clean refused) {body : Value} (free : ∀ s ∈ params, isReserved s = false)
    (code : body.Clean) (above : captured.Clean) (values : ∀ v ∈ args, v.Clean) (env : e.Clean) :
    Cleanly (Machine.Clean refused) (m.enter cfg params body captured args e) :=
  (clean.pushRestore cfg env).map fun pushed =>
    pushed.eval code ((env.merge above).bindAll free values)

theorem close (clean : m.Clean refused) {body : Value} (free : ∀ s ∈ params, isReserved s = false)
    (code : body.Clean) (env : e.Clean) : (m.close params body e).Clean refused :=
  ⟨trivial, env, env.closure free code _, clean.frames⟩

theorem ofFunction {body : Value} (code : body.Clean) (above : captured.Clean) (env : e.Clean) :
    Cleanly (Machine.Clean refused) (Machine.ofFunction cfg body captured e) := by
  have child : ({ env := e, stack := Stack.empty.push .terminate } : Machine).Clean refused :=
    ⟨trivial, env, .bare [], List.forall_mem_cons.mpr ⟨trivial, nofun⟩⟩
  exact child.enter nofun code above nofun env

end Machine.Clean

/-! ### Dispatches -/

/-- The state is one that the world keeps to, and the machine is clean, or fails with what is clean
or for the reason of a refusal. -/
structure Dispatch.Clean (refused : Failure → Prop) (P : σ → Prop) (d : Dispatch σ) : Prop where
  state : P d.state
  machine : ∀ m, d.machine = .ok m → m.Clean refused
  failure : ∀ f, d.machine = .error f → f.Clean ∨ refused f

namespace Dispatch.Clean

theorem of_cleanly {d : Dispatch σ} (holds : P d.state)
    (machine : Cleanly (Machine.Clean refused) d.machine) : d.Clean refused P where
  state := holds
  machine m result := by rwa [result] at machine
  failure f result := by
    rw [result] at machine
    exact .inl machine

theorem quiet (holds : P s) {x : Except Failure Machine}
    (machine : Cleanly (Machine.Clean refused) x) : (Machine.quiet s x).Clean refused P :=
  .of_cleanly holds machine

theorem goes (holds : P s) (clean : m.Clean refused) :
    (Machine.quiet s (.ok m)).Clean refused P := .quiet holds clean

theorem fails (holds : P s) {f : Failure} (clean : f.Clean) :
    (Machine.quiet s (.error f)).Clean refused P := .quiet holds clean

theorem refuses (holds : P s) {f : Failure} (reason : refused f) :
    (Machine.quiet s (.error f)).Clean refused P where
  state := holds
  machine := nofun
  failure _ result := .inr (Except.error.inj result ▸ reason)

end Dispatch.Clean

theorem SyscallTable.lookup_cleanly (t : SyscallTable) (name : Bytes) (argc : Int) :
    Cleanly (fun _ => True) (t.lookup name argc) := by
  have missing : (Failure.syscallNotFound name argc).Clean := by
    refine Failure.clean_raise _ (.list ?_)
    simp only [List.forall_mem_cons]
    exact ⟨.sym _, .int _, nofun⟩
  unfold lookup
  split
  · split
    · trivial
    · exact missing
  · exact missing

/-- Calls on clean values come out clean. -/
def SyscallTable.Clean (t : SyscallTable) : Prop :=
  ∀ {name args sc}, t.lookup name args.length = .ok sc → (∀ v ∈ args, v.Clean) →
    Cleanly Value.Clean (sc.call args).2

theorem SyscallTable.clean_standard (sink : Syscall.Sink) : (standard sink).Clean := by
  intro name args sc found values
  have member := (mem_of_lookup found).1
  have called := (respects_standard unreserved sink _ member) args args (alike_of_items values)
  have raises := raises_standard member args
  unfold Syscall.call
  dsimp only at called raises ⊢
  have result := called.result
  generalize (sc.run args).result = x at result raises
  cases x with
  | ok v =>
    cases result with
    | ok alike => exact (clean_of_alike alike).2
  | error trouble =>
    cases trouble with
    | language f =>
      obtain ⟨v, there, rfl⟩ := raises f rfl
      exact Failure.clean_raise _ (values v there)
    | plain text =>
      refine Failure.clean_raise _ (.list ?_)
      simp only [List.forall_mem_cons]
      exact ⟨.sym _, .str _, nofun⟩

namespace Machine.Clean

variable {host : Host σ}

theorem acted (clean : m.Clean refused) (holds : P s) (value : v.Clean) (env : e.Clean)
    {x : Except Trouble σ} :
    Answered refused P x → Dispatch.Clean refused P (match x with
      | .ok s => Machine.quiet s (.ok (m.ret v e))
      | .error f => Machine.quiet s (.error f.toFailure)) := by
  intro answers
  cases x with
  | ok s => exact .goes answers (clean.ret value env)
  | error f => exact .refuses holds answers

theorem forked (clean : m.Clean refused) (holds : P s) {answer : Pid → Value}
    (value : ∀ p, (answer p).Clean) (env : e.Clean) {x : Except Trouble (Pid × σ)} :
    Answered refused (fun a => P a.2) x → Dispatch.Clean refused P (match x with
      | .ok (p, s) => Machine.quiet s (.ok (m.ret (answer p) e))
      | .error f => Machine.quiet s (.error f.toFailure)) := by
  intro answers
  cases x with
  | ok a => exact .goes answers (clean.ret (value _) env)
  | error f => exact .refuses holds answers

theorem clean_arityMismatch (clean : v.Clean) (want got : Nat) :
    (Failure.arityMismatch v want got).Clean := by
  refine Failure.clean_raise _ (.list ?_)
  simp only [List.forall_mem_cons]
  exact ⟨clean, .int _, .int _, nofun⟩

theorem clean_typeMismatch (clean : v.Clean) (want : Bytes) :
    (Failure.typeMismatch want v).Clean := by
  refine Failure.clean_raise _ (.list ?_)
  simp only [List.forall_mem_cons]
  exact ⟨.sym _, clean, nofun⟩

theorem perform (clean : m.Clean refused) (delivers : world.Delivers refused P)
    (acting : world.host = some host) (holds : P s) (p : Primitive)
    (values : ∀ v ∈ args, v.Clean) (env : e.Clean) :
    (m.perform cfg host p args e s).Clean refused P := by
  unfold Machine.perform
  split
  · exact .goes holds (clean.ret (.pid _) env)
  · exact clean.forked holds (fun _ => .bool false) env
      (delivers.fork acting (clean.ret (.bool true) env) holds)
  · rename_i tag params body captured
    obtain ⟨free, code, above⟩ := (values _ List.mem_cons_self).of_lambda
    split
    · exact .fails holds (clean_arityMismatch (values _ List.mem_cons_self) _ _)
    · have child : Cleanly (Machine.Clean refused) (Machine.ofFunction cfg body captured e) :=
        ofFunction code above env
      split
      · rename_i failed
        rw [failed] at child
        exact .fails holds child
      · rename_i made
        rw [made] at child
        exact clean.forked holds (fun p => .pid p) env (delivers.fork acting child holds)
  · exact .fails holds (Failure.clean_raise _ (values _ List.mem_cons_self))
  · have msg : Value.Clean _ := values _ (List.mem_cons_of_mem _ List.mem_cons_self)
    exact clean.acted holds (.pid _) env (delivers.send acting msg.copy holds)
  · exact .fails holds (clean_typeMismatch (values _ List.mem_cons_self) _)
  · split
    · rename_i received
      obtain ⟨msg, kept⟩ := delivers.receive acting received holds
      exact .goes kept (clean.ret msg env)
    · exact .goes holds ⟨trivial, env, clean.val, clean.frames⟩
  · exact clean.acted holds (.pid _) env (delivers.watch acting holds)
  · exact .fails holds (clean_typeMismatch (values _ List.mem_cons_self) _)
  · exact .goes holds (clean.exit (values _ List.mem_cons_self))
  · exact .fails holds (clean_arityMismatch (.sym _) _ _)

variable {form : Form} {target : Target} {k : Frame}

theorem dispatch (clean : m.Clean refused) (calls : cfg.table.Clean)
    (delivers : world.Delivers refused P) (holds : P s) (goal : target.Clean)
    (values : ∀ v ∈ args, v.Clean) (env : e.Clean) :
    (m.dispatch cfg world target args e s).Clean refused P := by
  cases target with
  | list => exact .goes holds (clean.ret (.list values) env)
  | syscall name =>
    unfold Machine.dispatch
    dsimp only
    split
    · rename_i missing
      have looked := cfg.table.lookup_cleanly name args.length
      rw [missing] at looked
      exact .fails holds looked
    · rename_i sc found
      refine .of_cleanly ?_ ((calls found values).map fun value => clean.ret value env)
      dsimp only
      split
      · exact holds
      · exact delivers.print holds
  | primitive p =>
    unfold Machine.dispatch
    dsimp only
    split
    · exact .fails holds (Failure.clean_raise _ (.sym _))
    · rename_i acting
      exact clean.perform delivers acting holds p values env
  | apply params body captured =>
    obtain ⟨free, code, above⟩ := goal
    exact .quiet holds (clean.enter free code above values env)

theorem evalArgs (clean : m.Clean refused) (calls : cfg.table.Clean)
    (delivers : world.Delivers refused P) (holds : P s) (goal : target.Clean)
    (code : ∀ e ∈ args, e.Clean) (env : e.Clean) :
    (m.evalArgs cfg world target args e s).Clean refused P := by
  cases args with
  | nil => exact clean.dispatch calls delivers holds goal nofun env
  | cons expr pending =>
    obtain ⟨first, later⟩ := List.forall_mem_cons.mp code
    exact .quiet holds (clean.pushEval ⟨goal, nofun, later⟩ first env)

theorem clean_of_codes {es : List Value} (code : ∀ e ∈ es, unreserved.Code e) :
    ∀ e ∈ es, e.Clean := fun e member => clean_of_code (code e member)

theorem letIn (clean : m.Clean refused) (holds : P s) {bindings : List (Bytes × Value)}
    (code : unreserved.FormCode (.letIn bindings first rest)) (env : e.Clean) :
    (m.evalForm cfg world (.letIn bindings first rest) e s).Clean refused P := by
  obtain ⟨bound, code, later⟩ := code
  refine .quiet holds ?_
  have pushed := clean.pushRestore cfg env
  generalize m.pushRestore cfg e = restored at pushed
  cases restored with
  | error f => exact pushed
  | ok m =>
    cases bindings with
    | nil => exact pushed.evalSequence (clean_of_code code) (clean_of_codes later) env
    | cons b others =>
      have parts : ∀ c ∈ b :: others, isReserved c.1 = false ∧ c.2.Clean :=
        fun c member => ⟨(bound c member).1, clean_of_code (bound c member).2⟩
      obtain ⟨⟨name, expr⟩, later'⟩ := List.forall_mem_cons.mp parts
      have frame : Frame.Clean (.binding b.1 others first rest) :=
        ⟨name, later', clean_of_code code, clean_of_codes later⟩
      exact pushed.pushEval frame expr env

theorem evalForm (clean : m.Clean refused) (calls : cfg.table.Clean)
    (delivers : world.Delivers refused P) (holds : P s)
    (code : unreserved.FormCode form) (env : e.Clean) :
    (m.evalForm cfg world form e s).Clean refused P := by
  cases form with
  | value v => exact .goes holds (clean.ret (clean_of_alike code).2 env)
  | lookup name =>
    exact .quiet holds ((env.lookup name).map fun value => clean.ret value env)
  | branch test yes no =>
    obtain ⟨test, yes, no⟩ := code
    exact .quiet holds
      (clean.pushEval ⟨clean_of_code yes, clean_of_code no⟩ (clean_of_code test) env)
  | sequence first rest =>
    exact .quiet holds (clean.evalSequence (clean_of_code code.1) (clean_of_codes code.2) env)
  | define name expr => exact .quiet holds (clean.pushEval code.1 (clean_of_code code.2) env)
  | letIn bindings first rest => exact clean.letIn holds code env
  | lambda params body => exact .goes holds (clean.close code.1 (clean_of_code code.2) env)
  | cond clauses =>
    cases clauses with
    | nil => exact .goes holds (clean.ret (.sym _) env)
    | cons clause others =>
      have parts : ∀ c ∈ clause :: others, c.1.Clean ∧ c.2.Clean :=
        fun c member => ⟨clean_of_code (code c member).1, clean_of_code (code c member).2⟩
      obtain ⟨⟨test, body⟩, later⟩ := List.forall_mem_cons.mp parts
      exact .quiet holds (clean.pushEval ⟨body, later⟩ test env)
  | list items => exact clean.evalArgs calls delivers holds trivial (clean_of_codes code) env
  | primitive p args => exact clean.evalArgs calls delivers holds trivial (clean_of_codes code) env
  | syscall name args =>
    exact clean.evalArgs calls delivers holds trivial (clean_of_codes code) env
  | apply head args =>
    exact .quiet holds (clean.pushEval (clean_of_codes code.2) (clean_of_code code.1) env)

theorem applied (clean : m.Clean refused) (calls : cfg.table.Clean)
    (delivers : world.Delivers refused P) (holds : P s)
    (code : ∀ e ∈ args, e.Clean) (value : v.Clean) (env : e.Clean) :
    (m.resumeFrame cfg world (.callee args) v e s).Clean refused P := by
  unfold Machine.resumeFrame
  dsimp only
  split
  · obtain ⟨free, body, above⟩ := value.of_lambda
    split
    · exact clean.evalArgs calls delivers holds ⟨free, body, above⟩ code env
    · exact .fails holds (clean_arityMismatch value _ _)
  · exact .fails holds (Failure.clean_raise _ value)

theorem resumeFrame (clean : m.Clean refused) (calls : cfg.table.Clean)
    (delivers : world.Delivers refused P) (holds : P s) (frame : k.Clean) (value : v.Clean)
    (env : e.Clean) :
    (m.resumeFrame cfg world k v e s).Clean refused P := by
  cases k with
  | branch yes no =>
    refine .goes holds (clean.eval ?_ env)
    split
    · exact frame.1
    · exact frame.2
  | sequence first rest => exact .quiet holds (clean.evalSequence frame.1 frame.2 env)
  | define name => exact .goes holds (clean.ret value (env.bind frame value))
  | binding name others first rest =>
    obtain ⟨free, bound, code, later⟩ := frame
    have inner := env.bind free value
    cases others with
    | nil => exact .quiet holds (clean.evalSequence code later inner)
    | cons b others =>
      obtain ⟨⟨next, expr⟩, bound⟩ := List.forall_mem_cons.mp bound
      have frame : Frame.Clean (.binding b.1 others first rest) := ⟨next, bound, code, later⟩
      exact .quiet holds (clean.pushEval frame expr inner)
  | restore saved => exact .goes holds (clean.ret value frame)
  | clause body others =>
    obtain ⟨code, clauses⟩ := frame
    unfold Machine.resumeFrame
    dsimp only
    split
    · exact .goes holds (clean.eval code env)
    cases others with
    | nil => exact .goes holds (clean.ret (.sym _) env)
    | cons clause others =>
      obtain ⟨⟨test, body⟩, later⟩ := List.forall_mem_cons.mp clauses
      have frame : Frame.Clean (.clause clause.2 others) := ⟨body, later⟩
      exact .quiet holds (clean.pushEval frame test env)
  | arguments target done pending =>
    obtain ⟨goal, values, later⟩ := frame
    have extended : ∀ w ∈ v :: done, w.Clean := List.forall_mem_cons.mpr ⟨value, values⟩
    cases pending with
    | nil =>
      exact clean.dispatch calls delivers holds goal
        (fun w member => extended w (List.mem_reverse.mp member)) env
    | cons expr pending =>
      obtain ⟨code, later⟩ := List.forall_mem_cons.mp later
      have frame : Frame.Clean (.arguments target (v :: done) pending) := ⟨goal, extended, later⟩
      exact .quiet holds (clean.pushEval frame code env)
  | callee args => exact clean.applied calls delivers holds frame value env
  | terminate => exact .goes holds (clean.exit (.sym _))

/-- What one dispatch keeps. -/
theorem next? (clean : m.Clean refused) (calls : cfg.table.Clean)
    (delivers : world.Delivers refused P) (holds : P s) {d : ProcLisp.Dispatch σ}
    (next : m.next? cfg world s = some d) : d.Clean refused P := by
  unfold Machine.next? at next
  split at next
  · rename_i expr evaluating
    obtain rfl := Option.some.inj next
    have code : expr.Clean := by simpa [evaluating, Control.Clean] using clean.control
    have form := Form.read_cleanly cfg.table code
    unfold evalStep
    split
    · rename_i failed
      rw [failed] at form
      exact .fails holds form
    · rename_i read
      rw [read] at form
      exact clean.evalForm calls delivers holds form clean.env
  · split at next
    · rename_i k rest popped
      obtain rfl := Option.some.inj next
      have frames := clean.frames
      rw [frames_of_pop popped] at frames
      obtain ⟨frame, below⟩ := List.forall_mem_cons.mp frames
      have context : ({ m with stack := rest } : Machine).Clean refused :=
        ⟨clean.control, clean.env, clean.val, below⟩
      exact context.resumeFrame calls delivers holds frame clean.val clean.env
    · cases next
  · cases next

theorem after (clean : m.Clean refused) {d : ProcLisp.Dispatch σ} (dispatched : d.Clean refused P) :
    (m.after d).Clean refused := by
  have counted : ∀ {next : Machine} (n : UInt64), next.Clean refused →
      ({ next with reductions := n } : Machine).Clean refused := fun n kept =>
    ⟨kept.control, kept.env, kept.val, kept.frames⟩
  unfold Machine.after
  cases result : d.machine with
  | ok next => exact counted _ (dispatched.machine next result)
  | error f => exact counted _ (clean.fail (dispatched.failure f result))

end Machine.Clean
end ProcLisp
