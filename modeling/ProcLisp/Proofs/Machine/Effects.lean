import ProcLisp.Proofs.Machine.Dispatches

/-!
# What a dispatch does outside the machine

A dispatch changes nothing, prints what a syscall printed, or performs one act of the host. Whatever
print and the acts of the host keep, runs keep. Only syscalls charge more than the dispatch itself.
-/

namespace ProcLisp.Machine

variable {σ : Type} {cfg : Config} {world : World σ} {m : Machine} {s : σ}

/-- The ways in which a dispatch from the state `s` can go. -/
inductive Effect (world : World σ) (s : σ) : Dispatch σ → Prop where
  | none (machine : Except Failure Machine) : Effect world s (quiet s machine)
  | call (sc : Syscall) (printed : Bytes) (machine : Except Failure Machine) :
      Effect world s
        { state := if printed.isEmpty then s else world.print printed s
          charge := sc.cost.toNatClampNeg
          machine }
  | send {host : Host σ} {receiver : Pid} {msg : Value} {s' : σ} (acting : world.host = some host)
      (sent : host.send receiver msg s = .ok s') (machine : Except Failure Machine) :
      Effect world s (quiet s' machine)
  | receive {host : Host σ} {msg : Value} {s' : σ} (acting : world.host = some host)
      (received : host.receive s = some (msg, s')) (machine : Except Failure Machine) :
      Effect world s (quiet s' machine)
  | fork {host : Host σ} {birth : Birth} {child : Machine} {pid : Pid} {s' : σ}
      (acting : world.host = some host) (runnable : child.halted? = Option.none)
      (forked : host.fork birth child s = .ok (pid, s')) (machine : Except Failure Machine) :
      Effect world s (quiet s' machine)
  | watch {host : Host σ} {target : Pid} {s' : σ} (acting : world.host = some host)
      (watched : host.watch target s = .ok s') (machine : Except Failure Machine) :
      Effect world s (quiet s' machine)

theorem ofFunction_runnable {body : Value} {captured env : Env} {child : Machine}
    (made : ofFunction cfg body captured env = .ok child) : child.halted? = none := by
  simp only [ofFunction, enter] at made
  generalize pushRestore _ cfg env = pushed at made
  cases pushed with
  | error f => simp [Except.map] at made
  | ok m =>
    simp only [Except.map, Except.ok.injEq] at made
    rw [← made]
    rfl

theorem perform_effect {host : Host σ} (acting : world.host = some host) (p : Primitive)
    (args : List Value) (env : Env) : Effect world s (m.perform cfg host p args env s) := by
  unfold perform
  split
  · exact .none _
  · split
    · exact .fork acting rfl (by assumption) _
    · exact .none _
  · split
    · exact .none _
    · split
      · exact .none _
      · rename_i made
        split
        · exact .fork acting (ofFunction_runnable made) (by assumption) _
        · exact .none _
  · exact .none _
  · split
    · exact .send acting (by assumption) _
    · exact .none _
  · exact .none _
  · split
    · exact .receive acting (by assumption) _
    · exact .none _
  · split
    · exact .watch acting (by assumption) _
    · exact .none _
  · exact .none _
  · exact .none _
  · exact .none _

theorem dispatch_effect (target : Target) (args : List Value) (env : Env) :
    Effect world s (m.dispatch cfg world target args env s) := by
  cases target with
  | list => exact .none _
  | syscall name =>
    simp only [dispatch]
    split
    · exact .none _
    · exact .call _ _ _
  | primitive p =>
    simp only [dispatch]
    split
    · exact .none _
    · exact perform_effect (by assumption) p args env
  | apply params body captured => exact .none _

theorem evalArgs_effect (target : Target) (args : List Value) (env : Env) :
    Effect world s (m.evalArgs cfg world target args env s) := by
  cases args with
  | nil => exact dispatch_effect target [] env
  | cons e pending => exact .none _

theorem evalForm_effect (form : Form) (env : Env) :
    Effect world s (m.evalForm cfg world form env s) := by
  cases form with
  | cond clauses =>
    cases clauses with
    | nil => exact .none _
    | cons clause others => exact .none _
  | list items => exact evalArgs_effect .list items env
  | primitive p args => exact evalArgs_effect (.primitive p) args env
  | syscall name args => exact evalArgs_effect (.syscall name) args env
  | _ => exact .none _

theorem resumeFrame_effect (k : Frame) (v : Value) (env : Env) :
    Effect world s (m.resumeFrame cfg world k v env s) := by
  cases k with
  | binding name others first rest =>
    cases others with
    | nil => exact .none _
    | cons b others => exact .none _
  | clause body others =>
    simp only [resumeFrame]
    split
    · exact .none _
    · split <;> exact .none _
  | arguments target done pending =>
    cases pending with
    | nil => exact dispatch_effect target _ env
    | cons e pending => exact .none _
  | callee args =>
    simp only [resumeFrame]
    split
    · split
      · exact evalArgs_effect _ args env
      · exact .none _
    · exact .none _
  | _ => exact .none _

theorem next?_effect {d : Dispatch σ} (next : m.next? cfg world s = some d) :
    Effect world s d := by
  unfold next? at next
  split at next
  · obtain rfl := Option.some.inj next
    simp only [evalStep]
    split
    · exact .none _
    · exact evalForm_effect _ _
  · split at next
    · obtain rfl := Option.some.inj next
      exact resumeFrame_effect _ _ _
    · simp at next
  · simp at next

/-- A charge fits into 63 bits. -/
theorem charge_lt {d : Dispatch σ} (next : m.next? cfg world s = some d) :
    d.charge < UInt64.size / 2 := by
  cases next?_effect next with
  | call sc printed machine =>
    have := sc.cost.toInt_lt
    simp only [Int64.toNatClampNeg, UInt64.size]
    omega
  | _ => simp [quiet, UInt64.size]

/-! ### What runs keep -/

/-- A property of states that neither printing nor an act of the host ends. -/
structure Keeps (world : World σ) (P : σ → Prop) : Prop where
  print : ∀ {text s}, P s → P (world.print text s)
  send : ∀ {host receiver msg s s'}, world.host = some host →
    host.send receiver msg s = .ok s' → P s → P s'
  receive : ∀ {host msg s s'}, world.host = some host →
    host.receive s = some (msg, s') → P s → P s'
  fork : ∀ {host birth child pid s s'}, world.host = some host → child.halted? = none →
    host.fork birth child s = .ok (pid, s') → P s → P s'
  watch : ∀ {host target s s'}, world.host = some host →
    host.watch target s = .ok s' → P s → P s'

variable {P : σ → Prop}

theorem Keeps.effect (keeps : Keeps world P) {d : Dispatch σ} (effect : Effect world s d)
    (holds : P s) : P d.state := by
  cases effect with
  | none machine => exact holds
  | call sc printed machine =>
    simp only
    split
    · exact holds
    · exact keeps.print holds
  | send acting sent machine => exact keeps.send acting sent holds
  | receive acting received machine => exact keeps.receive acting received holds
  | fork acting runnable forked machine => exact keeps.fork acting runnable forked holds
  | watch acting watched machine => exact keeps.watch acting watched holds

theorem Keeps.iterate (keeps : Keeps world P) {n : Nat} {c c' : Machine × σ}
    (reached : iterate cfg world n c = some c') (holds : P c.2) : P c'.2 := by
  induction n generalizing c with
  | zero =>
    obtain rfl := Option.some.inj reached
    exact holds
  | succ n ih =>
    obtain ⟨c₁, first, rest⟩ := Option.bind_eq_some_iff.mp reached
    obtain ⟨d, next, rfl⟩ := Option.map_eq_some_iff.mp first
    exact ih rest (keeps.effect (next?_effect next) holds)

theorem pause_state (m : Machine) (s : σ) : (m.pause s).state = s := by
  unfold pause
  split <;> rfl

theorem Keeps.runFor (keeps : Keeps world P) (fuel budget : Nat) (holds : P s) :
    P (m.runFor cfg world fuel budget s).state := by
  induction fuel generalizing budget m s with
  | zero =>
    rw [Machine.runFor, pause_state]
    exact holds
  | succ fuel ih =>
    unfold Machine.runFor
    split
    · rw [pause_state]
      exact holds
    split
    · exact holds
    · rename_i next
      exact ih _ (keeps.effect (next?_effect next) holds)

theorem Keeps.run (keeps : Keeps world P) (budget : Nat) (holds : P s) :
    P (m.run cfg world budget s).state := keeps.runFor budget budget holds

end ProcLisp.Machine
