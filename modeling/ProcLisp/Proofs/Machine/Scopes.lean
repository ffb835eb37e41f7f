import ProcLisp.Proofs.Machine.Answers

/-!
# Scopes

`let` and calls evaluate in scopes of their own. Nothing that is bound in a scope reaches the
environment around it, and a `let` with several names is a nest of those with one.
-/

namespace ProcLisp

open Machine (Config)
open Recursive (Ambient Eval)
open Recursive.Eval

/-- The list is an application: its head names no special form, no primitive and no syscall. -/
def Value.Applicable (table : SyscallTable) (head : Value) : Prop :=
  ∀ name, head = .sym name →
    SpecialForm.ofName? name = none ∧ Primitive.ofName? name = none ∧ table.has name = false

namespace Form

theorem read_apply {table : SyscallTable} {head : Value} (applicable : head.Applicable table)
    (args : List Value) : read table (.list (head :: args)) = .ok (.apply head args) := by
  refine read_eq_ok.mpr (.apply (fun name same => ?_) args)
  obtain ⟨special, primitive, syscall⟩ := applicable name same
  exact ⟨not_reserved.mpr ⟨special, primitive⟩, syscall⟩

theorem read_list (table : SyscallTable) (items : List Value) :
    read table (.list (.sym (ascii "list") :: items)) = .ok (.list items) := rfl

/-- What starts with `let` is a `let`, or has the wrong shape. -/
theorem read_let {table : SyscallTable} {items : List Value} {form : Form}
    (done : read table (.list (.sym (ascii "let") :: items)) = .ok form) :
    ∃ bs first rest, form = .letIn bs first rest := by
  have special : readSpecial (.sym (ascii "let") :: items) .letIn items = .ok form := done
  cases readSpecial_eq_ok.mp special with
  | letIn => exact ⟨_, _, _, rfl⟩

end Form

namespace Bounded

variable {cfg : Config} {n : Nat} {base : Footing} {env env' : Env} {amb amb' : Ambient}

theorem env_of_let {items : List Value} {v : Value}
    (answer : evaluate cfg n base (.list (.sym (ascii "let") :: items)) env amb =
      some (.ok (v, env'), amb')) : env' = env := by
  cases n with
  | zero => cases answer
  | succ n =>
    cases found : Form.read cfg.table (.list (.sym (ascii "let") :: items)) with
    | error f =>
      rw [evaluate, found] at answer
      cases answer
    | ok form =>
      obtain ⟨bs, first, rest, rfl⟩ := Form.read_let found
      rw [evaluate_of_read found, form] at answer
      exact env_of_enclosed answer

/-- A call leaves the environment that its head and its arguments left, and these are evaluated as
the items of a list are. -/
theorem list_of_apply {head : Value} (applicable : head.Applicable cfg.table) {args : List Value}
    {v : Value} (answer : evaluate cfg n base (.list (head :: args)) env amb =
      some (.ok (v, env'), amb')) :
    ∃ vs amb₁, evaluate cfg n base (.list (.sym (ascii "list") :: head :: args)) env amb =
      some (.ok (.list vs, env'), amb₁) := by
  cases n with
  | zero => cases answer
  | succ n =>
    rw [evaluate_of_read (Form.read_apply applicable args)] at answer
    obtain ⟨f, env₁, amb₁, called, answer⟩ := ok_of_bind answer
    cases f with
    | lambda tag params body captured =>
      simp only [apply] at answer
      split at answer
      · obtain ⟨vs, env₂, amb₂, gathered, answer⟩ := ok_of_bind answer
        obtain rfl := env_of_enclosed answer
        refine ⟨.lambda tag params body captured :: vs, amb₂, ?_⟩
        rw [evaluate_of_read (Form.read_list cfg.table (head :: args))]
        have items : Recursive.arguments (under cfg (evaluate cfg n) base) (head :: args) env amb =
            some (.ok (.lambda tag params body captured :: vs, env'), amb₂) := by
          rw [Recursive.arguments, bind_of_ok called, bind_of_ok gathered]
          rfl
        exact bind_of_ok items _
      · cases answer
    | _ => cases answer

end Bounded

/-- Scopes do not leak. A `let` that succeeds leaves the environment as it was. A call that succeeds
leaves the one that evaluating its head and its arguments as a list leaves: what they define stays,
and nothing that the function defines does. -/
theorem scopes_do_not_leak (table : SyscallTable) (bound : Int) (env env' : Env) (supply : Supply)
    (rounds : Nat) (ev : Evaluation) (v : Value) (succeeded : ev.outcome = .value v env') :
    let cfg := Config.ofBound table bound
    (∀ items, eval cfg rounds (.list (.sym (ascii "let") :: items)) env supply = some ev →
      env' = env) ∧
    ∀ head args, head.Applicable table →
      eval cfg rounds (.list (head :: args)) env supply = some ev →
      let gathering : Value := .list (.sym (ascii "list") :: head :: args)
      ∃ vs, (∃ rounds' ev', eval cfg rounds' gathering env supply = some ev') ∧
        ∀ rounds' ev', eval cfg rounds' gathering env supply = some ev' →
          ev'.outcome = .value (.list vs) env' := by
  intro cfg
  have answered : ∀ {e}, eval cfg rounds e env supply = some ev →
      ∃ n amb, Bounded.evaluate cfg n Bounded.ground e env ⟨supply, []⟩ =
        some (.ok (v, env'), amb) := by
    intro e ended
    obtain ⟨⟨result, amb⟩, ⟨n, answer⟩, gives⟩ := Machine.answer_of_evalProgram ended
    have outcome := succeeded.symm.trans gives.1
    cases result with
    | error f => cases outcome
    | ok pair =>
      obtain ⟨rfl, rfl⟩ := Machine.Outcome.value.inj outcome
      exact ⟨n, amb, answer⟩
  constructor
  · intro items ended
    obtain ⟨n, amb, answer⟩ := answered ended
    exact Bounded.env_of_let answer
  · intro head args applicable ended gathering
    obtain ⟨n, amb, answer⟩ := answered ended
    have plain : head.Applicable cfg.table := applicable
    obtain ⟨vs, amb', gathered⟩ := Bounded.list_of_apply plain answer
    have answers : Bounded.Answers cfg [gathering] env ⟨supply, []⟩ (.ok (.list vs, env'), amb') :=
      ⟨n, gathered⟩
    obtain ⟨rounds', ev', ended', -⟩ := Machine.evalProgram_of_answer answers
    refine ⟨vs, ⟨rounds', ev', ended'⟩, fun rounds' ev' ended' => ?_⟩
    obtain ⟨r, other, gives⟩ := Machine.answer_of_evalProgram ended'
    obtain rfl := other.unique answers
    exact gives.1

/-- A `let` that defines a name, by itself and in a function whose argument defines another one. -/
theorem scopes_do_not_leak_with_definitions :
    let cfg := Config.ofBound [] 0
    let x : Value := .sym [0x78]
    let define : Value := .list [.sym (ascii "def"), .sym [0x79], x]
    let items : List Value := [.list [x, .int 1], define]
    let f : Value := .lambda ⟨0, 0⟩ [[0x78]] (.list (.sym (ascii "let") :: items)) []
    let arg : Value := .list [.sym (ascii "def"), .sym [0x7a], .int 5]
    (∃ rounds ev env', eval cfg rounds (.list (.sym (ascii "let") :: items)) [] {} = some ev ∧
      ev.outcome = .value (.int 1) env' ∧ env' = []) ∧
    ∃ rounds ev, eval cfg rounds (.list [f, arg]) [] {} = some ev ∧
      ev.outcome = .value (.int 1) [([0x7a], .int 5)] ∧
      ∃ vs rounds' ev', eval cfg rounds' (.list [.sym (ascii "list"), f, arg]) [] {} = some ev' ∧
        ev'.outcome = .value (.list vs) [([0x7a], .int 5)] := by
  intro cfg x define items f arg
  have local_answer : Bounded.Answers cfg [.list (.sym (ascii "let") :: items)] [] ⟨{}, []⟩
      (.ok (.int 1, []), ⟨{}, []⟩) := ⟨3, by unfold cfg items define x; rfl⟩
  have call_answer : Bounded.Answers cfg [.list [f, arg]] [] ⟨{}, []⟩
      (.ok (.int 1, [([0x7a], .int 5)]), ⟨{}, []⟩) := ⟨4, by unfold cfg f arg items define x; rfl⟩
  obtain ⟨rounds, ev, ended, gives, -⟩ := Machine.evalProgram_of_answer local_answer
  obtain ⟨rounds₁, ev₁, ended₁, gives₁, -⟩ := Machine.evalProgram_of_answer call_answer
  constructor
  · exact ⟨rounds, ev, [], ended, gives,
      (scopes_do_not_leak [] 0 [] [] {} rounds ev _ gives).1 items ended⟩
  · obtain ⟨vs, ⟨rounds', ev', ended'⟩, all⟩ :=
      (scopes_do_not_leak [] 0 [] _ {} rounds₁ ev₁ _ gives₁).2 f [arg] nofun ended₁
    exact ⟨rounds₁, ev₁, ended₁, gives₁, vs, rounds', ev', ended', all rounds' ev' ended'⟩

/-! ### Spellings of `let` -/

namespace LetSpelling

def letForm (bindings : Value) (body : List Value) : Value :=
  .list (.sym (ascii "let") :: bindings :: body)

/-- `(n₁ e₁ … nₖ eₖ)` -/
def flat (bs : List (Bytes × Value)) : Value := .list (bs.flatMap fun b => [.sym b.1, b.2])

/-- `((n₁ e₁) … (nₖ eₖ))` -/
def paired (bs : List (Bytes × Value)) : Value := .list (bs.map fun b => .list [.sym b.1, b.2])

/-- `(let (n₁ e₁) (let (n₂ e₂) … (let (nₖ eₖ) body …) …))` -/
def nested (b : Bytes × Value) : (others : List (Bytes × Value)) → (body : List Value) → Value
  | [], body => letForm (flat [b]) body
  | next :: others, body => letForm (flat [b]) [nested next others body]

end LetSpelling

open LetSpelling

namespace Form

theorem spells_flat (bs : List (Bytes × Value)) : Spells (flat bs) bs := .flat bs

theorem spells_paired (bs : List (Bytes × Value)) : Spells (paired bs) bs := .paired bs

theorem read_letForm (table : SyscallTable) {bindings first : Value} {bs : List (Bytes × Value)}
    (spelled : Spells bindings bs) (free : ∀ b ∈ bs, isReserved b.1 = false)
    (rest : List Value) :
    read table (letForm bindings (first :: rest)) = .ok (.letIn bs first rest) :=
  read_eq_ok.mpr (.special rfl (.letIn spelled free first rest))

end Form

namespace Bounded

/-- The bindings and the body of a `let`. -/
def letBody (cfg : Config) (n : Nat) (inner : Footing) (bs : List (Bytes × Value)) (first : Value)
    (rest : List Value) : Eval Value := do
  Recursive.bindings (under cfg (evaluate cfg n) inner) bs
  sequence cfg (evaluate cfg n) inner first rest

/-- What is in sight of the first binding of a nest of `let`s. -/
def nestBody (cfg : Config) (n : Nat) (inner : Footing) (bs : List (Bytes × Value)) (first : Value)
    (rest : List Value) : Eval Value :=
  match bs with
  | [] => sequence cfg (evaluate cfg n) inner first rest
  | next :: others => evaluate cfg n inner (nested next others (first :: rest))

section Nest

variable {α β : Type} {cfg : Config} {n n' : Nat} {base inner : Footing} {b : Bytes × Value}
  {bs : List (Bytes × Value)} {first : Value} {rest : List Value}

/-- A scope at the end of another one adds nothing. -/
theorem inScope_bind_inScope (x : Eval α) (y : α → Eval β) :
    inScope (x >>= fun a => inScope (y a)) = inScope (x >>= y) := by
  funext env amb
  simp only [inScope, Bind.bind]
  rcases x env amb with _ | ⟨⟨e⟩ | ⟨a, env'⟩, amb'⟩
  · rfl
  · rfl
  · rcases answer : y a env' amb' with _ | ⟨⟨e⟩ | ⟨b, env''⟩, amb''⟩ <;> simp only [answer]

theorem refines_inScope_bind {lost : Option Failure → Prop} {x y : Eval α} {f g : α → Eval β}
    (first : y.Refines lost x) (next : ∀ a, (inScope (g a)).Refines lost (inScope (f a))) :
    (inScope (y >>= g)).Refines lost (inScope (x >>= f)) := by
  rw [← inScope_bind_inScope y g, ← inScope_bind_inScope x f]
  exact refines_inScope (refines_bind first next)

theorem enclosed_covered (elide : cfg.elide = true) (covered : inner.covered = true)
    (x : Footing → Eval α) : enclosed cfg inner x = inScope (x inner) := by
  simp [enclosed, elide, covered]

/-- Scopes are compared on the footing that their restore frame gives. -/
theorem refines_enclosed_of_inScope {lost : Option Failure → Prop} {x y : Footing → Eval α}
    (scopes : ∀ inner : Footing, inner.covered = true →
      (inScope (y inner)).Refines lost (inScope (x inner))) :
    (enclosed cfg base y).Refines lost (enclosed cfg base x) := by
  unfold enclosed
  split
  case isTrue elided =>
    exact scopes base (Bool.and_eq_true_iff.mp elided).1
  split
  · exact scopes _ rfl
  · exact refines_refl _

theorem letBody_cons (cfg : Config) (n : Nat) (inner : Footing) (b : Bytes × Value)
    (bs : List (Bytes × Value)) (first : Value) (rest : List Value) :
    letBody cfg n inner (b :: bs) first rest =
      Recursive.bindings (under cfg (evaluate cfg n) inner) [b] >>= fun _ =>
        letBody cfg n inner bs first rest := by
  simp only [letBody, Recursive.bindings, bind_assoc, pure_bind]

theorem evaluate_let {bindings : Value} (spelled : Form.Spells bindings bs)
    (free : ∀ b ∈ bs, isReserved b.1 = false) :
    evaluate cfg (n + 1) base (letForm bindings (first :: rest)) =
      enclosed cfg base fun inner => letBody cfg n inner bs first rest :=
  evaluate_of_read (Form.read_letForm cfg.table spelled free rest) n base

theorem evaluate_nested (free : isReserved b.1 = false) :
    evaluate cfg (n + 1) base (nested b bs (first :: rest)) =
      enclosed cfg base fun inner =>
        Recursive.bindings (under cfg (evaluate cfg n) inner) [b] >>= fun _ =>
          nestBody cfg n inner bs first rest := by
  have free : ∀ x ∈ [b], isReserved x.1 = false := by simpa using free
  cases bs <;> exact evaluate_let (Form.spells_flat [b]) free

theorem bindings_refines (le : n ≤ n') (bs : List (Bytes × Value)) :
    (Recursive.bindings (under cfg (evaluate cfg n') inner) bs).Refines (· = none)
      (Recursive.bindings (under cfg (evaluate cfg n) inner) bs) :=
  refines_bindings (refines_under (evaluate_refines (by rfl) le) (.refl _)) bs

/-- A nest in its scope is its first binding, and then the rest of it. -/
theorem inScope_nestBody_cons (elide : cfg.elide = true) (covered : inner.covered = true)
    (free : isReserved b.1 = false) :
    inScope (nestBody cfg (n + 1) inner (b :: bs) first rest) =
      inScope (Recursive.bindings (under cfg (evaluate cfg n) inner) [b] >>= fun _ =>
        nestBody cfg n inner bs first rest) := by
  rw [nestBody, evaluate_nested free, enclosed_covered elide covered]
  exact inScope_bind_inScope (pure ()) fun _ => _

/-- What a nest comes to, its bindings in a row do, with less depth. -/
theorem letBody_refines_nestBody (elide : cfg.elide = true) (covered : inner.covered = true)
    (free : ∀ x ∈ bs, isReserved x.1 = false) (le : n ≤ n') :
    (inScope (letBody cfg n' inner bs first rest)).Refines (· = none)
      (inScope (nestBody cfg n inner bs first rest)) := by
  induction bs generalizing n with
  | nil =>
    exact refines_inScope (refines_sequence (evaluate_refines (by rfl) le) (.refl _) first rest)
  | cons next others ih =>
    cases n with
    | zero => exact fun env amb => .inr (.inl ⟨rfl, rfl⟩)
    | succ n =>
      have shallower : n ≤ n' := by omega
      rw [letBody_cons, inScope_nestBody_cons elide covered (free next (by simp))]
      exact refines_inScope_bind (bindings_refines shallower [next]) fun _ =>
        ih (fun x mem => free x (List.mem_cons_of_mem _ mem)) shallower

/-- What bindings in a row come to, a nest does, with as much more depth. -/
theorem nestBody_refines_letBody (elide : cfg.elide = true) (covered : inner.covered = true)
    (free : ∀ x ∈ bs, isReserved x.1 = false) (le : n + bs.length ≤ n') :
    (inScope (nestBody cfg n' inner bs first rest)).Refines (· = none)
      (inScope (letBody cfg n inner bs first rest)) := by
  induction bs generalizing n' with
  | nil =>
    exact refines_inScope (refines_sequence (evaluate_refines (by rfl) le) (.refl _) first rest)
  | cons next others ih =>
    obtain ⟨k, rfl⟩ : ∃ k, n' = k + 1 := ⟨n' - 1, by simp at le; omega⟩
    have enough : n + others.length ≤ k := by simpa [← Nat.add_assoc] using le
    rw [letBody_cons, inScope_nestBody_cons elide covered (free next (by simp))]
    exact refines_inScope_bind (bindings_refines (by omega) [next]) fun _ =>
      ih (fun x mem => free x (List.mem_cons_of_mem _ mem)) enough

/-- Bindings in a row refine the nest, and with more depth the nest refines them. -/
theorem nested_refines (elide : cfg.elide = true) (free : ∀ x ∈ b :: bs, isReserved x.1 = false) :
    (evaluate cfg n base (letForm (flat (b :: bs)) (first :: rest))).Refines (· = none)
        (evaluate cfg n base (nested b bs (first :: rest))) ∧
      (evaluate cfg (n + bs.length) base (nested b bs (first :: rest))).Refines (· = none)
        (evaluate cfg n base (letForm (flat (b :: bs)) (first :: rest))) := by
  have free' : ∀ x ∈ bs, isReserved x.1 = false := fun x mem => free x (List.mem_cons_of_mem _ mem)
  cases n with
  | zero =>
    exact ⟨fun env amb => .inr (.inl ⟨rfl, rfl⟩), fun env amb => .inr (.inl ⟨rfl, rfl⟩)⟩
  | succ n =>
    rw [evaluate_let (Form.spells_flat (b :: bs)) free, Nat.add_right_comm,
      evaluate_nested (free b (by simp)), evaluate_nested (free b (by simp))]
    constructor
    all_goals
      refine refines_enclosed_of_inScope fun inner covered => ?_
      rw [letBody_cons]
      refine refines_inScope_bind (bindings_refines (by omega) [b]) fun _ => ?_
    · exact letBody_refines_nestBody elide covered free' (Nat.le_refl n)
    · exact nestBody_refines_letBody elide covered free' (Nat.le_refl _)

end Nest
end Bounded

/-- The spellings of `let` agree. A `let` with its bindings in a row, one with its bindings in pairs
and a nest of `let`s with one binding each have the same outcome and the same output, at every bound
on the stack. -/
theorem let_spellings_agree (table : SyscallTable) (bound : Int) (b : Bytes × Value)
    (bs : List (Bytes × Value)) (free : ∀ x ∈ b :: bs, isReserved x.1 = false) (first : Value)
    (rest : List Value) (env : Env) (supply : Supply) :
    let cfg := Config.ofBound table bound
    let row := letForm (flat (b :: bs)) (first :: rest)
    EndAlike cfg [row] [letForm (paired (b :: bs)) (first :: rest)] env supply ∧
      EndAlike cfg [row] [nested b bs (first :: rest)] env supply := by
  intro cfg row
  constructor
  · have same (n : Nat) : Bounded.program cfg n [letForm (paired (b :: bs)) (first :: rest)] =
        Bounded.program cfg n [row] := by
      cases n with
      | zero => rfl
      | succ n =>
        exact (Bounded.evaluate_let (Form.spells_paired (b :: bs)) free).trans
          (Bounded.evaluate_let (Form.spells_flat (b :: bs)) free).symm
    constructor
    all_goals
      refine endsAs_of_answers fun ⟨n, answer⟩ => ⟨n, ?_⟩
    · rwa [same]
    · rwa [← same]
  · have elide : cfg.elide = true := rfl
    have kept : ∀ {x y : Eval Value}, y.Refines (· = none) x → ∀ {r},
        x env ⟨supply, []⟩ = some r → y env ⟨supply, []⟩ = some r :=
      fun refines _ answer => Bounded.answer_of_refines refines answer fun _ _ => nofun
    constructor
    · exact endsAs_of_answers fun ⟨n, answer⟩ =>
        ⟨n + bs.length, kept (Bounded.nested_refines elide free).2 answer⟩
    · exact endsAs_of_answers fun ⟨n, answer⟩ =>
        ⟨n, kept (Bounded.nested_refines elide free).1 answer⟩

/-- The same name twice, where the value for the first one defines another name. -/
theorem let_spellings_agree_with_repetition :
    let cfg := Config.ofBound [] 3
    let x : Value := .sym [0x78]
    let b : Bytes × Value := ([0x78], .list [.sym (ascii "def"), .sym [0x79], .int 1])
    let bs : List (Bytes × Value) := [([0x78], .list [.sym (ascii "list"), x, .sym [0x79]])]
    (∃ rounds ev, eval cfg rounds (letForm (flat (b :: bs)) [x]) [] {} = some ev ∧
      ev.outcome = .value (.list [.int 1, .int 1]) []) ∧
    (∃ rounds ev, eval cfg rounds (letForm (paired (b :: bs)) [x]) [] {} = some ev ∧
      ev.outcome = .value (.list [.int 1, .int 1]) []) ∧
    ∃ rounds ev, eval cfg rounds (nested b bs [x]) [] {} = some ev ∧
      ev.outcome = .value (.list [.int 1, .int 1]) [] := by
  intro cfg x b bs
  have answers : Bounded.Answers cfg [letForm (flat (b :: bs)) [x]] [] ⟨{}, []⟩
      (.ok (.list [.int 1, .int 1], []), ⟨{}, []⟩) := ⟨3, by unfold cfg b bs x; rfl⟩
  have free : ∀ x ∈ b :: bs, isReserved x.1 = false := by decide
  have ⟨pairs, nest⟩ := let_spellings_agree [] 3 b bs free x [] [] {}
  obtain ⟨rounds, ev, ended, gives, -⟩ := Machine.evalProgram_of_answer answers
  obtain ⟨rounds₁, ev₁, ended₁, same₁⟩ := pairs.1 rounds ev ended
  obtain ⟨rounds₂, ev₂, ended₂, same₂⟩ := nest.1 rounds ev ended
  exact ⟨⟨rounds, ev, ended, gives⟩, ⟨rounds₁, ev₁, ended₁, same₁.outcome.trans gives⟩,
    ⟨rounds₂, ev₂, ended₂, same₂.outcome.trans gives⟩⟩

end ProcLisp
