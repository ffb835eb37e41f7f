import ProcLisp.Proofs.Indexed.Calls

/-!
# What the machine of positions does

While its frames are in range the machine of positions runs into no fault. It does what the machine
proper does with what it shows, its frames stay in range, and whatever it calls gets as many
arguments as it takes.
-/

namespace ProcLisp.Indexed

open Likeness (whole)

variable {σ : Type} {cfg : Config} {world : World σ} {m : Machine} {s : σ} {env : Env} {v : Value}
  {k : Frame}

/-! ### Forms -/

theorem readPairs_eq (w : Value) (items : List Value) :
    readPairs w items = .ok (Form.readPairs w items) := by
  induction items with
  | nil => rfl
  | cons item items ih =>
    unfold readPairs
    cases item with
    | list pair =>
      rcases pair with _ | ⟨name, _ | ⟨expr, _ | ⟨more, rest⟩⟩⟩
      · rfl
      · cases name <;> rfl
      · cases name with
        | sym name =>
          show (do
            let later ← readPairs w items
            Except.ok (later.map ((name, expr) :: ·))) = _
          rw [ih]
          rfl
        | _ => rfl
      · cases name <;> rfl
    | _ => rfl

theorem readFlat_eq (w : Value) {items : List Value} : ∀ {rest : List Value} {i : Nat},
    items.drop i = rest → rest.length % 2 = 0 →
    readFlat items i = .ok (Form.readFlat w rest)
  | [], i, split, _ => by
    have outside : ¬ i < items.length := by
      have ended := List.drop_eq_nil_iff.mp split
      omega
    rw [readFlat, if_neg outside]
    rfl
  | [_], _, _, even => by cases even
  | name :: expr :: rest, i, split, even => by
    have second := drop_succ split
    have later : rest.length % 2 = 0 := by
      simp only [List.length_cons] at even
      omega
    rw [readFlat, if_pos (lt_of_drop split), read_of_drop split]
    cases name with
    | sym name =>
      show (do
        let expr ← read items (i + 1)
        let later ← readFlat items (i + 2)
        Except.ok (later.map ((name, expr) :: ·))) = _
      rw [read_of_drop second, readFlat_eq w (drop_succ second) later]
      rfl
    | _ => rfl

theorem readBindings_eq (w : Value) : readBindings w = .ok (Form.readBindings w) := by
  cases w with
  | list items =>
    cases items with
    | nil => rfl
    | cons first rest =>
      show (if first.kind = Kind.list then _ else if _ then _ else _) = _
      simp only [Form.readBindings]
      split
      · exact readPairs_eq _ _
      split
      · rfl
      · exact readFlat_eq _ rfl (by omega)
  | _ => rfl

theorem readBody_eq (word params first : Value) (rest : List Value) :
    readBody (word :: params :: first :: rest) = .ok (Form.block first rest) := by
  unfold readBody
  cases rest with
  | nil => rfl
  | cons next others =>
    rw [if_pos (by simp), slice_of_le (by simp)]
    rfl

theorem readClauses_eq : ∀ {clauses : List Value}, clauses.length % 2 = 0 →
    Form.readClauses clauses = some (pairs clauses)
  | [], _ => rfl
  | [_], even => by cases even
  | test :: body :: rest, even => by
    have later : rest.length % 2 = 0 := by
      simp only [List.length_cons] at even
      omega
    rw [Form.readClauses, readClauses_eq later]
    rfl

theorem readClauses_of_odd : ∀ {clauses : List Value}, clauses.length % 2 ≠ 0 →
    Form.readClauses clauses = none
  | [], odd => (odd rfl).elim
  | [_], _ => rfl
  | test :: body :: rest, odd => by
    have later : rest.length % 2 ≠ 0 := by
      simp only [List.length_cons] at odd
      omega
    rw [Form.readClauses, readClauses_of_odd later]
    rfl

namespace Machine

theorem evalLet_yields (world : World σ) (range : m.InRange) {form rest : List Value} {first : Value}
    (body : form.drop 2 = first :: rest) (bindings : List (Bytes × Value)) (env : Env) (s : σ) :
    Yields (quiet s <$> m.evalLet cfg form bindings env)
      (Dispatch.Shows · (m.view.evalForm cfg.toConfig world (.letIn bindings first rest) env s)) := by
  have pushed := agree_pushRestore cfg range env
  unfold evalLet ProcLisp.Machine.evalForm
  dsimp only
  generalize m.pushRestore cfg env = x, m.view.pushRestore cfg.toConfig env = y at pushed
  cases pushed with
  | error same =>
    subst same
    exact yields_error s _
  | @ok m _ shown =>
    obtain ⟨range, rfl⟩ := shown
    dsimp only
    rw [slice_of_le (by have inside := lt_of_drop body; omega), body]
    cases bindings with
    | nil => exact quiet_yields (evalSequence_yields range first rest env) s
    | cons binding others =>
      have inside : (Frame.binding (binding :: others) 0 (first :: rest)).InRange :=
        ⟨Nat.zero_lt_succ others.length, List.cons_ne_nil first rest⟩
      exact yields_ok (shows_quiet (agree_pushEval cfg range inside binding.2 env))

/-- What the machine proper does with an expression, once it is read. -/
def evalRead (cfg : ProcLisp.Machine.Config) (world : World σ) (m : ProcLisp.Machine) (env : Env)
    (s : σ) : Except Failure Form → ProcLisp.Dispatch σ
  | .error f => ProcLisp.Machine.quiet s (.error f)
  | .ok form => m.evalForm cfg world form env s

section Special

variable (range : m.InRange) (word : Value) (args : List Value) (s : σ)
include range

theorem quote_yields : Yields (m.evalSpecial cfg world (word :: args) env s .quote)
    (Dispatch.Shows ·
      (evalRead cfg.toConfig world m.view env s (Form.readSpecial (word :: args) .quote args))) := by
  rcases args with _ | ⟨v, _ | ⟨more, rest⟩⟩
  · exact yields_error s _
  · exact yields_ret range v env s
  · exact yields_error s _

theorem branch_yields : Yields (m.evalSpecial cfg world (word :: args) env s .branch)
    (Dispatch.Shows ·
      (evalRead cfg.toConfig world m.view env s (Form.readSpecial (word :: args) .branch args))) := by
  rcases args with _ | ⟨test, _ | ⟨yes, _ | ⟨no, _ | ⟨more, rest⟩⟩⟩⟩
  · exact yields_error s _
  · exact yields_error s _
  · exact yields_error s _
  · exact yields_ok (shows_quiet (agree_pushEval cfg (k := .branch yes no) range trivial test env))
  · exact yields_error s _

theorem sequence_yields : Yields (m.evalSpecial cfg world (word :: args) env s .sequence)
    (Dispatch.Shows ·
      (evalRead cfg.toConfig world m.view env s (Form.readSpecial (word :: args) .sequence args))) := by
  cases args with
  | nil => exact yields_error s _
  | cons first rest =>
    have enough : ¬ (word :: first :: rest).length < 2 := by simp
    unfold evalSpecial
    rw [if_neg enough, slice_of_le (by simp)]
    exact quiet_yields (evalSequence_yields range first rest env) s

theorem define_yields : Yields (m.evalSpecial cfg world (word :: args) env s .define)
    (Dispatch.Shows ·
      (evalRead cfg.toConfig world m.view env s (Form.readSpecial (word :: args) .define args))) := by
  rcases args with _ | ⟨name, _ | ⟨expr, _ | ⟨more, rest⟩⟩⟩
  · exact yields_error s _
  · cases name <;> exact yields_error s _
  · cases name with
    | sym name =>
      show Yields (if isReserved name then _ else _) _
      unfold Form.readSpecial
      dsimp only
      split
      · exact yields_error s _
      · exact yields_ok (shows_quiet (agree_pushEval cfg (k := .define name) range trivial expr env))
    | _ => exact yields_error s _
  · cases name <;> exact yields_error s _

theorem letIn_yields : Yields (m.evalSpecial cfg world (word :: args) env s .letIn)
    (Dispatch.Shows ·
      (evalRead cfg.toConfig world m.view env s (Form.readSpecial (word :: args) .letIn args))) := by
  rcases args with _ | ⟨written, _ | ⟨first, rest⟩⟩
  · exact yields_error s _
  · exact yields_error s _
  · have enough : ¬ (word :: written :: first :: rest).length < 3 := by simp
    unfold evalSpecial Form.readSpecial
    dsimp only
    rw [if_neg enough, show read (word :: written :: first :: rest) 1 = .ok written from rfl,
      ok_bind, readBindings_eq, ok_bind]
    cases Form.readBindings written with
    | error f => exact yields_error s f
    | ok bindings =>
      dsimp only
      split
      · exact yields_error s _
      · exact evalLet_yields world range rfl bindings env s

theorem lambda_yields : Yields (m.evalSpecial cfg world (word :: args) env s .lambda)
    (Dispatch.Shows ·
      (evalRead cfg.toConfig world m.view env s (Form.readSpecial (word :: args) .lambda args))) := by
  rcases args with _ | ⟨written, _ | ⟨first, rest⟩⟩
  · exact yields_error s _
  · cases written <;> exact yields_error s _
  · cases written with
    | list params =>
      have enough : ¬ (word :: .list params :: first :: rest).length < 3 := by simp
      unfold evalSpecial Form.readSpecial
      dsimp only
      rw [if_neg enough,
        show read (word :: .list params :: first :: rest) 1 = .ok (.list params) from rfl, ok_bind]
      dsimp only
      cases Form.readParams (word :: .list params :: first :: rest) [] params with
      | error f => exact yields_error s f
      | ok names =>
        dsimp only
        rw [readBody_eq]
        exact yields_ok (shows_quiet (.ok ⟨range, rfl⟩))
    | _ => exact yields_error s _

theorem cond_yields : Yields (m.evalSpecial cfg world (word :: args) env s .cond)
    (Dispatch.Shows ·
      (evalRead cfg.toConfig world m.view env s (Form.readSpecial (word :: args) .cond args))) := by
  unfold evalSpecial Form.readSpecial
  rw [slice_of_le (by simp)]
  show Yields (if args.length % 2 ≠ 0 then _ else _) _
  dsimp only
  by_cases even : args.length % 2 = 0
  · rw [if_neg (not_not.mpr even), readClauses_eq even]
    rcases args with _ | ⟨test, _ | ⟨body, rest⟩⟩
    · exact yields_ret range _ env s
    · cases even
    · have inside : (Frame.clause (test :: body :: rest) 0).InRange :=
        ⟨even, rfl, Nat.zero_lt_succ _⟩
      exact yields_ok (shows_quiet (agree_pushEval cfg range inside test env))
  · rw [if_pos even, readClauses_of_odd even]
    exact yields_error s _

end Special

theorem evalSpecial_yields (faithful : cfg.Faithful) (range : m.InRange)
    (context : whole.ContextAlike m.view m.view) (current : whole.Current env env) (word : Value)
    (args : List Value) (s : σ) (sf : SpecialForm) :
    Yields (m.evalSpecial cfg world (word :: args) env s sf)
      (Dispatch.Shows ·
        (evalRead cfg.toConfig world m.view env s (Form.readSpecial (word :: args) sf args))) := by
  cases sf with
  | quote => exact quote_yields range word args s
  | branch => exact branch_yields range word args s
  | sequence => exact sequence_yields range word args s
  | define => exact define_yields range word args s
  | letIn => exact letIn_yields range word args s
  | lambda => exact lambda_yields range word args s
  | cond => exact cond_yields range word args s
  | list =>
    have takes : Takes .list args.length := trivial
    unfold evalSpecial
    rw [slice_of_le (by simp)]
    exact evalArgs_yields faithful range context current takes s

theorem evalHead_yields (world : World σ) (range : m.InRange) (head : Value) (args : List Value)
    (env : Env) (s : σ) :
    Yields (m.evalHead cfg (head :: args) env s)
      (Dispatch.Shows · (m.view.evalForm cfg.toConfig world (.apply head args) env s)) := by
  have inside : (Frame.callee (head :: args)).InRange := List.cons_ne_nil head args
  exact yields_ok (shows_quiet (agree_pushEval cfg range inside head env))

theorem evalList_yields (faithful : cfg.Faithful) (range : m.InRange)
    (context : whole.ContextAlike m.view m.view) (current : whole.Current env env) (head : Value)
    (args : List Value) (s : σ) :
    Yields (m.evalList cfg world (head :: args) env s)
      (Dispatch.Shows ·
        (evalRead cfg.toConfig world m.view env s (Form.readList cfg.table head args))) := by
  cases head with
  | sym name =>
    unfold evalList Form.readList
    rw [show read (.sym name :: args) 0 = .ok (.sym name) from rfl, ok_bind]
    dsimp only
    cases SpecialForm.ofName? name with
    | some sf => exact evalSpecial_yields faithful range context current _ args s sf
    | none =>
      dsimp only
      cases Primitive.ofName? name with
      | some p =>
        show Yields (if args.length ≠ p.arity then _ else _) _
        dsimp only
        by_cases fits : args.length = p.arity
        · have takes : Takes (.primitive p) args.length := fits
          rw [if_neg (not_not.mpr fits), if_pos fits, slice_of_le (by simp)]
          exact evalArgs_yields faithful range context current takes s
        · rw [if_pos fits, if_neg fits]
          exact yields_error s _
      | none =>
        have takes : Takes (.syscall name) args.length := trivial
        show Yields (if cfg.table.has name then _ else _) _
        dsimp only
        split
        · rw [slice_of_le (by simp)]
          exact evalArgs_yields faithful range context current takes s
        · exact evalHead_yields world range _ args env s
  | _ => exact evalHead_yields world range _ args env s

theorem step_yields (faithful : cfg.Faithful) (range : m.InRange)
    (context : whole.ContextAlike m.view m.view) (current : whole.Current m.env m.env)
    (expr : Value) (s : σ) :
    Yields (m.step cfg world expr m.env s)
      (Dispatch.Shows · (m.view.evalStep cfg.toConfig world expr s)) := by
  have looked : ∀ name, Yields (.ok (quiet s ((m.env.lookup name).map (m.ret · m.env))))
      (Dispatch.Shows ·
        (ProcLisp.Machine.quiet s ((m.env.lookup name).map (m.view.ret · m.env)))) := by
    intro name
    refine yields_ok (shows_quiet ?_)
    cases m.env.lookup name with
    | ok v => exact .ok (shows_ret range v m.env)
    | error f => exact .error rfl
  cases expr with
  | sym name => exact looked name
  | list form =>
    cases form with
    | nil => exact yields_ret range .empty m.env s
    | cons head args => exact evalList_yields faithful range context current head args s
  | bare k =>
    unfold step ProcLisp.Machine.evalStep Form.read
    dsimp only
    by_cases symbol : k = Kind.symbol
    · rw [if_pos symbol, if_pos symbol]
      exact looked []
    rw [if_neg symbol, if_neg symbol]
    by_cases list : k = Kind.list
    · rw [if_pos list, if_pos list]
      exact yields_ret range .empty m.env s
    · rw [if_neg list, if_neg list]
      exact yields_ret range (.bare k) m.env s
  | _ => exact yields_ret range _ m.env s

/-! ### Frames -/

section Frames

variable (range : m.InRange) (v : Value) (env : Env) (s : σ) (world : World σ)
include range

theorem binding_yields {bindings : List (Bytes × Value)} {index : Nat} {body : List Value}
    (inside : (Frame.binding bindings index body).InRange) :
    Yields (m.resumeFrame cfg world (.binding bindings index body) v env s)
      (Dispatch.Shows · (m.view.resumeFrame cfg.toConfig world
        (Frame.binding bindings index body).view v env s)) := by
  obtain ⟨here, some⟩ := inside
  obtain ⟨first, rest, rfl⟩ := List.exists_cons_of_ne_nil some
  rw [Frame.view_binding here]
  unfold resumeFrame
  dsimp only
  rw [read_of_lt here]
  show Yields (if index + 1 < bindings.length then _ else _) _
  by_cases more : index + 1 < bindings.length
  · have inside : (Frame.binding bindings (index + 1) (first :: rest)).InRange := ⟨more, some⟩
    have pushed := agree_pushEval cfg range inside bindings[index + 1].2
      (env.bind bindings[index].1 v)
    rw [Frame.view_binding more] at pushed
    rw [if_pos more, read_of_lt more, List.drop_eq_getElem_cons more]
    exact yields_ok (shows_quiet pushed)
  · rw [if_neg more, List.drop_eq_nil_of_le (by omega)]
    exact quiet_yields (evalSequence_yields range first rest _) s

theorem clause_yields {clauses : List Value} {index : Nat}
    (inside : (Frame.clause clauses index).InRange) :
    Yields (m.resumeFrame cfg world (.clause clauses index) v env s)
      (Dispatch.Shows · (m.view.resumeFrame cfg.toConfig world
        (Frame.clause clauses index).view v env s)) := by
  obtain ⟨even, even', here⟩ := inside
  -- both numbers are even, so that the body of the predicate at `index` follows it
  have second : index + 1 < clauses.length := by omega
  rw [Frame.view_clause second]
  unfold resumeFrame ProcLisp.Machine.resumeFrame
  dsimp only
  split
  · rw [read_of_lt second]
    exact yields_ok (shows_quiet (.ok (shows_eval range _ env)))
  by_cases more : clauses.length ≤ index + 2
  · rw [if_pos more, List.drop_eq_nil_of_le more]
    exact yields_ret range _ env s
  · have third : index + 2 < clauses.length := by omega
    have fourth : index + 2 + 1 < clauses.length := by omega
    have inside : (Frame.clause clauses (index + 2)).InRange := ⟨even, by omega, third⟩
    have pushed := agree_pushEval cfg range inside clauses[index + 2] env
    rw [Frame.view_clause fourth] at pushed
    rw [if_neg more, read_of_lt third, List.drop_eq_getElem_cons third,
      List.drop_eq_getElem_cons fourth]
    exact yields_ok (shows_quiet pushed)

end Frames

section Calls

variable (faithful : cfg.Faithful) (range : m.InRange) (context : whole.ContextAlike m.view m.view)
  (current : whole.Current env env) (s : σ)
include faithful range context current

theorem arguments_yields {target : Target} {pending done : List Value}
    (inside : (Frame.arguments target pending done).InRange) (built : ∀ w ∈ done, w.Built)
    (value : v.Built) :
    Yields (m.resumeFrame cfg world (.arguments target pending done) v env s)
      (Dispatch.Shows · (m.view.resumeFrame cfg.toConfig world
        (Frame.arguments target pending done).view v env s)) := by
  obtain ⟨here, takes⟩ := inside
  have count : (done ++ [v]).length = done.length + 1 := by simp
  have newest : (done ++ [v]).reverse = v :: done.reverse := by simp
  unfold resumeFrame Frame.view
  dsimp only
  rw [count]
  by_cases more : done.length + 1 < pending.length
  · have inside : (Frame.arguments target pending (done ++ [v])).InRange := by
      refine ⟨?_, takes⟩
      rw [count]
      exact more
    -- what is done is kept in order here, and shown in reverse
    have pushed := agree_pushEval cfg range inside pending[done.length + 1] env
    rw [Frame.view, newest, count] at pushed
    rw [if_pos more, read_of_lt more, List.drop_eq_getElem_cons more]
    exact yields_ok (shows_quiet pushed)
  · have all : (done ++ [v]).length = pending.length := by omega
    have values : ∀ w ∈ done ++ [v], w.Built := by
      intro w member
      rcases List.mem_append.mp member with old | new
      · exact built w old
      · rw [List.mem_singleton.mp new]
        exact value
    have dispatched : Yields (m.dispatch cfg world target (done ++ [v]) env s)
        (Dispatch.Shows · (m.view.dispatch cfg.toConfig world target (done ++ [v]) env s)) :=
      dispatch_yields faithful range context current values (all ▸ takes) s
    rw [if_neg more, List.drop_eq_nil_of_le (by omega)]
    unfold ProcLisp.Machine.resumeFrame
    dsimp only
    rw [← newest, List.reverse_reverse]
    exact dispatched

theorem callee_yields {form : List Value} (inside : (Frame.callee form).InRange) (v : Value) :
    Yields (m.resumeFrame cfg world (.callee form) v env s)
      (Dispatch.Shows ·
        (m.view.resumeFrame cfg.toConfig world (Frame.callee form).view v env s)) := by
  obtain ⟨head, args, rfl⟩ := List.exists_cons_of_ne_nil inside
  cases v with
  | lambda tag params body captured =>
    show Yields _ (Dispatch.Shows · (m.view.resumeFrame cfg.toConfig world (.callee args) _ env s))
    unfold resumeFrame ProcLisp.Machine.resumeFrame
    dsimp only
    rw [slice_of_le (by simp)]
    show Yields (if args.length ≠ params.length then _ else _) _
    by_cases fits : args.length = params.length
    · have takes : Takes (.apply params body captured) args.length := fits
      rw [if_neg (not_not.mpr fits), if_pos fits]
      exact evalArgs_yields faithful range context current takes s
    · rw [if_pos fits, if_neg fits]
      exact yields_error s _
  | _ => exact yields_error s _

end Calls

theorem resumeFrame_yields (faithful : cfg.Faithful) (range : m.InRange)
    (context : whole.ContextAlike m.view m.view) (current : whole.Current env env)
    (inside : k.InRange) (frame : whole.FrameAlike k.view k.view) (value : v.Built) (s : σ) :
    Yields (m.resumeFrame cfg world k v env s)
      (Dispatch.Shows · (m.view.resumeFrame cfg.toConfig world k.view v env s)) := by
  cases k with
  | branch yes no => exact yields_ok (shows_quiet (.ok (shows_eval range _ env)))
  | sequence rest =>
    obtain ⟨first, rest, rfl⟩ := List.exists_cons_of_ne_nil inside
    exact quiet_yields (evalSequence_yields range first rest env) s
  | define name => exact yields_ret range v _ s
  | binding bindings index body => exact binding_yields range v env s world inside
  | restore saved => exact yields_ret range v saved s
  | clause clauses index => exact clause_yields range v env s world inside
  | arguments target pending done =>
    have built : ∀ w ∈ done, w.Built := by
      cases frame with
      | arguments _ values =>
        intro w member
        exact (Likeness.same_of_items values).2 w (List.mem_reverse.mpr member)
    exact arguments_yields faithful range context current s inside built value
  | callee form => exact callee_yields faithful range context current s inside v
  | terminate => exact yields_ok (shows_quiet (.ok (shows_exit m _)))

/-- The next dispatch runs into no fault, and it is that of the machine proper. -/
theorem next?_yields (faithful : cfg.Faithful) (range : m.InRange) (built : m.view.Built)
    (world : World σ) (s : σ) :
    Yields (m.next? cfg world s)
      (Option.Rel Dispatch.Shows · (m.view.next? cfg.toConfig world s)) := by
  obtain ⟨context, control⟩ := built
  obtain ⟨c, env, val, frames, supply, reductions⟩ := m
  cases c with
  | eval expr =>
    exact (step_yields faithful range context context.env expr s).map fun d shown => .some shown
  | returning =>
    cases frames with
    | nil => exact yields_ok .none
    | cons k rest =>
      obtain ⟨inside, below⟩ := List.forall_mem_cons.mp range
      cases context.frames with
      | cons frame others =>
        cases control with
        | returning value =>
          let m : Machine := ⟨.returning, env, val, rest, supply, reductions⟩
          have popped : whole.ContextAlike m.view m.view :=
            ⟨context.env, context.val, others, rfl, rfl⟩
          exact Yields.map (resumeFrame_yields (m := m) faithful below popped context.env inside
            frame (Likeness.built_of_alike value) s) fun d shown => .some shown
  | _ => exact yields_ok .none

end Machine
end ProcLisp.Indexed
