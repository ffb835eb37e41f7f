import ProcLisp.Proofs.Machine.Discipline
import ProcLisp.Proofs.Results

/-!
# Reachable machines

The machines of all runs in all worlds, and those that processes make of themselves. Their stacks
are within the bound and have no two restore frames side by side.
-/

namespace ProcLisp.Machine

/-- The machines that programs bring about, in whatever worlds. -/
inductive Reachable (cfg : Config) : Machine → Prop where
  | fresh (supply : Supply) : Reachable cfg { supply }
  /-- Any machine may be given a program. -/
  | load {m : Machine} (before : Reachable cfg m) (exprs : List Value) (env : Env) :
      Reachable cfg (m.load exprs env)
  | dispatch {σ : Type} {world : World σ} {m : Machine} {s : σ} {d : Dispatch σ}
      (before : Reachable cfg m) (next : m.next? cfg world s = some d) : Reachable cfg (m.after d)
  /-- A child that the host took. -/
  | child {σ : Type} {world : World σ} {m child : Machine} {s : σ} {d : Dispatch (σ × List Deed)}
      {birth : Birth} {pid : Pid} (before : Reachable cfg m)
      (next : m.next? cfg world.recording (s, []) = some d)
      (handed : .forked birth child pid ∈ d.state.2) : Reachable cfg child
  | adopt {m : Machine} (before : Reachable cfg m) (p : Pid) : Reachable cfg (m.adopt p)
  | resume {m next : Machine} {msg : Value} (before : Reachable cfg m)
      (resumed : m.resume msg = .ok next) : Reachable cfg next
  /-- A machine that has returned is done. -/
  | finish {m : Machine} (before : Reachable cfg m) (returning : m.control = .returning)
      (out : m.stack.frames = []) : Reachable cfg { m with control := .done }
  /-- A machine that is run without a program fails. -/
  | unloaded {m : Machine} (before : Reachable cfg m) (idle : m.control = .idle) :
      Reachable cfg (m.fail (.unknown MachineError.notLoaded.message))

variable {σ : Type} {cfg : Config} {world : World σ} {m : Machine} {s : σ}

/-! ### Runs -/

/-- What dispatches keep, and the two ways in which a run ends a machine itself. -/
structure RunKeeps (cfg : Config) (world : World σ) (Q : Machine → σ → Prop) : Prop where
  dispatch : ∀ {m s d}, Q m s → m.next? cfg world s = some d → Q (m.after d) d.state
  finish : ∀ {m s}, Q m s → m.control = .returning → m.stack.frames = [] →
    Q { m with control := .done } s
  unloaded : ∀ {m s}, Q m s → m.control = .idle →
    Q (m.fail (.unknown MachineError.notLoaded.message)) s

variable {Q : Machine → σ → Prop}

theorem RunKeeps.pause (keeps : RunKeeps cfg world Q) (holds : Q m s) :
    Q (m.pause s).machine (m.pause s).state := by
  unfold Machine.pause halted?
  cases control : m.control with
  | idle => exact keeps.unloaded holds control
  | _ => exact holds

theorem RunKeeps.runFor (keeps : RunKeeps cfg world Q) (fuel budget : Nat) (holds : Q m s) :
    Q (m.runFor cfg world fuel budget s).machine (m.runFor cfg world fuel budget s).state := by
  induction fuel generalizing m budget s with
  | zero => exact keeps.pause holds
  | succ fuel ih =>
    unfold Machine.runFor
    split
    · exact keeps.pause holds
    case isFalse going =>
      split
      case h_1 stuck =>
        have running : m.halted? = none := by
          cases halted : m.halted? with
          | none => rfl
          | some => simp [halted] at going
        obtain ⟨returning, out⟩ := out_of_work (c := (m, s)) running (advance?_eq_none.mpr stuck)
        exact keeps.finish holds returning out
      case h_2 d next => exact ih _ (keeps.dispatch holds next)

theorem Reachable.keeps : RunKeeps cfg world fun m _ => Reachable cfg m where
  dispatch := .dispatch
  finish := .finish
  unloaded := .unloaded

/-- A run goes through reachable machines. -/
theorem Reachable.run (reachable : Reachable cfg m) (budget : Nat) :
    Reachable cfg (m.run cfg world budget s).machine :=
  Reachable.keeps.runFor budget budget reachable

/-! ### What reachable machines keep -/

variable {k : Stack} {excused : Failure → Prop}

/-- The record of a dispatch holds the child that the host took, and no other. -/
theorem Deals.child {d : Dispatch (σ × List Deed)} {birth : Birth} {child : Machine} {pid : Pid}
    (deals : Deals cfg world.recording (s, []) k excused d)
    (handed : .forked birth child pid ∈ d.state.2) : Born cfg k child := by
  cases deals with
  | quiet lands => cases handed
  | call lands =>
    dsimp only at handed
    split at handed
    · cases handed
    · cases List.mem_singleton.mp handed
  | acted act lands =>
    cases act with
    | send acting sent =>
      obtain ⟨host, -, rfl⟩ := Option.map_eq_some_iff.mp acting
      obtain ⟨next, -, rfl⟩ := exists_of_map_ok sent
      cases List.mem_singleton.mp handed
    | receive acting received =>
      obtain ⟨host, -, rfl⟩ := Option.map_eq_some_iff.mp acting
      obtain ⟨next, -, same⟩ := Option.map_eq_some_iff.mp received
      obtain ⟨-, rfl⟩ := Prod.mk.inj same
      cases List.mem_singleton.mp handed
    | watch acting watched =>
      obtain ⟨host, -, rfl⟩ := Option.map_eq_some_iff.mp acting
      obtain ⟨next, -, rfl⟩ := exists_of_map_ok watched
      cases List.mem_singleton.mp handed
  | forked acting accepted born lands =>
    obtain ⟨host, -, rfl⟩ := Option.map_eq_some_iff.mp acting
    obtain ⟨next, -, same⟩ := exists_of_map_ok accepted
    obtain ⟨-, rfl⟩ := Prod.mk.inj same
    cases List.mem_singleton.mp handed
    exact born

theorem load_disciplined (room : 0 < cfg.maxFrames) (m : Machine) (exprs : List Value)
    (env : Env) : (m.load exprs env).stack.Disciplined cfg := by
  rcases exprs with _ | ⟨e, _ | ⟨next, others⟩⟩
  · exact .empty cfg
  · exact .empty cfg
  · exact (Stack.Disciplined.empty cfg).grown (.frame .same rfl room)

theorem Lands.disciplined {result : Except Failure Machine}
    (lands : Lands cfg k excused result) (disciplined : k.Disciplined cfg) :
    ∀ next, result = .ok next → next.stack.Disciplined cfg := by
  rintro next rfl
  cases lands with
  | goes grown => exact disciplined.grown grown
  | ends _ empty => exact empty ▸ .empty cfg

theorem after_disciplined {d : Dispatch σ}
    (kept : ∀ next, d.machine = .ok next → next.stack.Disciplined cfg) :
    (m.after d).stack.Disciplined cfg := by
  unfold after
  cases result : d.machine with
  | ok next => exact kept next result
  | error f => exact .empty cfg

theorem Born.disciplined {child : Machine} (born : Born cfg k child) (room : 0 < cfg.maxFrames)
    (disciplined : k.Disciplined cfg) : child.stack.Disciplined cfg := by
  cases born with
  | fork same => exact same ▸ disciplined
  | spawn grown =>
    have bottom : (Stack.empty.push .terminate).Disciplined cfg :=
      (Stack.Disciplined.empty cfg).grown (.frame .same rfl room)
    exact bottom.grown grown

/-- The stack that a dispatch works on, the machine's or what is below its innermost frame. -/
theorem deals_disciplined (elide : cfg.elide = true) (disciplined : m.stack.Disciplined cfg)
    {d : Dispatch σ} (next : m.next? cfg world s = some d) :
    ∃ k excused, k.Disciplined cfg ∧ Deals cfg world s k excused d := by
  rcases next?_deals elide next with ⟨e, -, deals⟩ | ⟨f, k, -, stack, deals⟩
  · exact ⟨m.stack, _, disciplined, deals⟩
  · rw [stack] at disciplined
    exact ⟨k, _, disciplined.below, deals⟩

theorem Reachable.disciplined (elide : cfg.elide = true) (room : 0 < cfg.maxFrames)
    (reachable : Reachable cfg m) : m.stack.Disciplined cfg := by
  induction reachable with
  | fresh => exact .empty cfg
  | load _ exprs env => exact load_disciplined room _ exprs env
  | dispatch _ next ih =>
    obtain ⟨k, excused, disciplined, deals⟩ := deals_disciplined elide ih next
    exact after_disciplined (deals.lands.disciplined disciplined)
  | child _ next handed ih =>
    obtain ⟨k, excused, disciplined, deals⟩ := deals_disciplined elide ih next
    exact (deals.child handed).disciplined room disciplined
  | adopt _ _ ih => exact ih
  | resume _ resumed ih =>
    unfold Machine.resume at resumed
    split at resumed
    · obtain rfl := Except.ok.inj resumed
      exact ih
    · cases resumed
  | finish _ _ _ ih => exact ih
  | unloaded => exact .empty cfg

/-- Where there is room for two frames, no frame overflows the stack when it is resumed: the place
that it had is free. Only the answer to arguments can look like that. -/
theorem Reachable.resumed_within (elide : cfg.elide = true) (room : 2 ≤ cfg.maxFrames)
    (reachable : Reachable cfg m) (returning : m.control = .returning) {d : Dispatch σ}
    {f : Failure} (next : m.next? cfg world s = some d) (failed : d.machine = .error f)
    (overflow : f.kind = ErrorKind.stackOverflow) :
    ∃ target done, m.stack.frames.head? = some (.arguments target done []) ∧
      Foreign cfg world s target (m.val :: done).reverse f := by
  rcases next?_deals elide next with ⟨e, control, -⟩ | ⟨frame, k, -, stack, deals⟩
  · cases control.symm.trans returning
  have bounded := (reachable.disciplined elide (by omega)).bounded
  rw [stack] at bounded ⊢
  have lands := deals.lands
  rw [failed] at lands
  cases lands with
  | fails own =>
    cases own overflow with
    | tight tight =>
      simp only [Stack.push] at bounded
      rcases tight with full | small <;> omega
    | foreign last answer => exact ⟨_, _, by rw [last]; rfl, answer⟩

end ProcLisp.Machine
