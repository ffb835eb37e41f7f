import ProcLisp.Proofs.Machine.Likeness

/-!
# Bindings that no program sees

A function is evaluated in the environment of its caller, overlaid with its own, and what it makes
keeps all of it. So a binding that nobody asked for gets into every closure. As long as no code
mentions its name, an evaluation comes out as it does without the binding.
-/

namespace ProcLisp

open Machine

/-- Code does not mention `x`, and no lambda binds or captures it. As data the symbol may occur. -/
inductive Value.Clear (x : Bytes) : (code : Bool) → Value → Prop where
  | int {c} (n : Int64) : Clear x c (.int n)
  | bool {c} (b : Bool) : Clear x c (.bool b)
  | sym {c} {s : Bytes} (apart : c = true → s ≠ x) : Clear x c (.sym s)
  | str {c} (s : Bytes) : Clear x c (.str s)
  | list {c} {items : List Value} (each : ∀ v ∈ items, Clear x c v) : Clear x c (.list items)
  | map {c} {entries : Dict Bytes Value} (each : ∀ e ∈ entries, Clear x false e.2) :
      Clear x c (.map entries)
  | lambda {c} {tag : Tag} {params : List Bytes} {body : Value} {env : Env} (apart : x ∉ params)
      (code : Clear x true body) (ordered : Dict.Ordered env) (unbound : Dict.find? env x = none)
      (each : ∀ e ∈ env, Clear x false e.2) : Clear x c (.lambda tag params body env)
  | pid {c} (p : Pid) : Clear x c (.pid p)
  | error {c} {kind : Bytes} {payload : Value} (inner : Clear x false payload) :
      Clear x c (.error kind payload)
  /-- A bare symbol is evaluated as the one without any letter. -/
  | bare {c} {k : Bytes} (apart : c = true → k = Kind.symbol → [] ≠ x) : Clear x c (.bare k)

namespace Likeness

/-- The name `x` is bound to `old` in the first run and to `new` in the second one, and code mentions
it in neither. -/
def beside (x : Bytes) (old new : Option Value) : Likeness where
  word s := s ≠ x
  binds s := s ≠ x
  bare _ := True
  captured e e' := (Dict.find? e x = none ∨ Dict.find? e x = old) ∧
    (Dict.find? e' x = none ∨ Dict.find? e' x = new)
  current e e' := Dict.find? e x = old ∧ Dict.find? e' x = new
  binds_of_word apart _ := apart
  captured_of_current both := ⟨.inr both.1, .inr both.2⟩
  current_bind v w apart both := by
    rw [Env.bind, Env.bind, Dict.find?_insert, Dict.find?_insert, if_neg apart, if_neg apart]
    exact both
  current_merge {e e' c c'} ordered ordered' both upper := by
    have kept : ∀ {e c : Env} {bound : Option Value}, Dict.Ordered c → Dict.find? e x = bound →
        Dict.find? c x = none ∨ Dict.find? c x = bound →
        Dict.find? (e.merge c) x = bound := by
      rintro e c bound ordered below (none | same)
      · rw [Env.find?_merge ordered, none, below, Option.none_or]
      · rw [Env.find?_merge ordered, same, below, Option.or_self]
    exact ⟨kept ordered both.1 upper.1, kept ordered' both.2 upper.2⟩

variable {x : Bytes} {old new : Option Value}

theorem alike_of_clear {v : Value} {c : Bool} (clear : v.Clear x c) :
    (beside x old new).Alike c v v := by
  induction clear with
  | int n => exact .int n
  | bool b => exact .bool b
  | sym apart => exact .sym apart
  | str s => exact .str s
  | list _ ih => exact .of_items (List.forall₂_same.mpr ih)
  | map _ ih => exact .of_entries (List.forall₂_same.mpr fun e member => ⟨rfl, ih e member⟩)
  | lambda apart _ ordered unbound _ code each =>
    have captured : (beside x old new).Captured _ _ :=
      ⟨envAlike_self ordered each, .inl unbound, .inl unbound⟩
    refine captured.closure (fun s member => ?_) code _
    rintro rfl
    exact apart member
  | pid p => exact .pid p
  | error _ ih => exact .error _ ih
  | bare apart => exact .bare trivial apart

end Likeness

/-- Outcomes that print alike, whose environments differ only in `x`. -/
inductive Machine.Outcome.AlikeBut (x : Bytes) (old new : Option Value) : Outcome → Outcome → Prop
  | value {v w : Value} {e e' : Env} (same : v.encode = w.encode)
      (others : ∀ y, y ≠ x →
        (Dict.find? e y).map Value.encode = (Dict.find? e' y).map Value.encode)
      (first : Dict.find? e x = old) (second : Dict.find? e' x = new) :
      AlikeBut x old new (.value v e) (.value w e')
  | failed {f g : Failure} (kind : f.kind = g.kind) (payload : f.payload.encode = g.payload.encode) :
      AlikeBut x old new (.failed f) (.failed g)
  | error (e : MachineError) : AlikeBut x old new (.error e) (.error e)

structure Evaluation.AlikeBut (x : Bytes) (old new : Option Value) (r r' : Evaluation) : Prop where
  outcome : r.outcome.AlikeBut x old new r'.outcome
  transcript : r.transcript = r'.transcript
  supply : r.supply = r'.supply
  reductions : r.reductions = r'.reductions

theorem Likeness.OutcomeAlike.alikeBut {x : Bytes} {old new : Option Value} {o o' : Outcome}
    (alike : (beside x old new).OutcomeAlike o o') : o.AlikeBut x old new o' := by
  cases alike with
  | @value v w e e' value env =>
    refine .value value.encode_eq (fun y apart => ?_) env.current.1 env.current.2
    have found := env.found y apart
    generalize Dict.find? e y = a, Dict.find? e' y = b at found ⊢
    cases found with
    | none => rfl
    | some alike => exact congrArg some alike.encode_eq
  | failed failure => exact .failed failure.kind_eq failure.encode_eq
  | error e => exact .error e

/-- A binding of a name that no code mentions changes nothing: the evaluation comes to an end with
as many rounds, prints the same, and has the same reductions and the same outcome but for the binding
itself. It is so with every table whose syscalls do not tell apart values that differ only there, and
the standard table is one. -/
theorem weakening (x : Bytes) (v : Value) (env : Env) :
    (∀ sink, (SyscallTable.standard sink).Respects
      (.beside x (Dict.find? env x) (some v))) ∧
    ∀ (cfg : Config) (rounds : Nat) (exprs : List Value) (supply : Supply),
      cfg.table.Respects (.beside x (Dict.find? env x) (some v)) →
      Dict.Ordered env → (∀ e ∈ env, e.2.Clear x false) → (∀ e ∈ exprs, e.Clear x true) →
      Option.Rel (Evaluation.AlikeBut x (Dict.find? env x) (some v))
        (evalProgram cfg rounds exprs env supply)
        (evalProgram cfg rounds exprs (env.bind x v) supply) := by
  refine ⟨fun sink => SyscallTable.respects_standard _ sink, ?_⟩
  intro cfg rounds exprs supply respects ordered values code
  let L := Likeness.beside x (Dict.find? env x) (some v)
  have same : L.EnvAlike env env :=
    Likeness.envAlike_self ordered fun e member => Likeness.alike_of_clear (values e member)
  have current : L.Current env (env.bind x v) := by
    refine ⟨⟨ordered, Dict.ordered_insert ordered x v, fun s apart => ?_⟩, rfl, ?_⟩
    · rw [Env.bind, Dict.find?_insert, if_neg (Ne.symm apart)]
      exact same.found s apart
    · rw [Env.bind, Dict.find?_insert, if_pos rfl]
  have evaluated := Likeness.evalProgram_alike respects
    (fun e member => Likeness.alike_of_clear (code e member)) current rounds supply
  generalize evalProgram cfg rounds exprs env supply = a,
    evalProgram cfg rounds exprs (env.bind x v) supply = b at evaluated
  cases evaluated with
  | none => exact .none
  | some alike =>
    exact .some ⟨alike.outcome.alikeBut, alike.transcript, alike.supply, alike.reductions⟩

/-- A function that returns a closure over all that its caller has. -/
theorem weakening_returned_closure :
    let inner : Value := .list [.sym (ascii "fn"), .list [.sym [0x6d]],
      .list [.sym (ascii "list"), .sym [0x6e], .sym [0x6d]]]
    let env : Env := [([0x66], .lambda ⟨7, 0⟩ [[0x6e]] inner [])]
    let exprs : List Value := [.list [.sym (ascii "def"), .sym [0x67], .list [.sym [0x66], .int 1]],
      .list [.sym [0x67], .int 2]]
    let x : Bytes := ascii "unrelated"
    (Dict.Ordered env ∧ (∀ e ∈ env, e.2.Clear x false) ∧ ∀ e ∈ exprs, e.Clear x true) ∧
      ∃ r r', evalProgram (.ofBound (.standard .opened) 0) 1 exprs env {} = some r ∧
        evalProgram (.ofBound (.standard .opened) 0) 1 exprs (env.bind x (.int 9)) {} = some r' ∧
        r.AlikeBut x none (some (.int 9)) r' := by
  intro inner env exprs x
  have sym : ∀ {c : Bool} {s : Bytes}, s ≠ x → (Value.sym s).Clear x c := fun apart => .sym fun _ => apart
  have names : ascii "fn" ≠ x ∧ ascii "list" ≠ x ∧ ascii "def" ≠ x ∧ [0x6d] ≠ x ∧ [0x6e] ≠ x ∧
      [0x66] ≠ x ∧ [0x67] ≠ x := by decide
  obtain ⟨fn, list, define, m, n, f, g⟩ := names
  have code : inner.Clear x true := by
    refine .list ?_
    simp only [List.forall_mem_cons]
    exact ⟨sym fn, .list (by simpa using sym m), .list (by simp [sym list, sym n, sym m]), nofun⟩
  have values : ∀ e ∈ env, e.2.Clear x false := by
    simp only [env, List.forall_mem_cons]
    exact ⟨.lambda (by simpa using n.symm) code .nil rfl nofun, nofun⟩
  have program : ∀ e ∈ exprs, e.Clear x true := by
    simp only [exprs, List.forall_mem_cons]
    refine ⟨.list ?_, .list ?_, nofun⟩
    · simp only [List.forall_mem_cons]
      exact ⟨sym define, sym g, .list (by simp [sym f, Value.Clear.int]), nofun⟩
    · simp [sym g, Value.Clear.int]
  have ordered : Dict.Ordered env := List.pairwise_singleton _ _
  refine ⟨⟨ordered, values, program⟩, ?_⟩
  obtain ⟨standard, evaluated⟩ := weakening x (.int 9) env
  have alike := evaluated (.ofBound (.standard .opened) 0) 1 exprs {} (standard .opened) ordered
    values program
  have ends : (evalProgram (.ofBound (.standard .opened) 0) 1 exprs env {}).isSome := by
    decide +kernel
  have unbound : Dict.find? env x = none := rfl
  rw [unbound] at alike
  generalize evalProgram (.ofBound (.standard .opened) 0) 1 exprs env {} = a,
    evalProgram (.ofBound (.standard .opened) 0) 1 exprs (env.bind x (.int 9)) {} = b
    at alike ends ⊢
  cases alike with
  | none => cases ends
  | some alike => exact ⟨_, _, rfl, rfl, alike⟩

end ProcLisp
