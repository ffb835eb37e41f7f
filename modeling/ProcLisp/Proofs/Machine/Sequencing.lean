import ProcLisp.Proofs.Machine.Answers

/-!
# Sequences of expressions

A program in two parts is its first part and then its second, from the environment that the first
one left. The frame that holds what is to come takes a place on the stack, and that is all.
-/

namespace ProcLisp

open Machine (Config)
open Recursive (Ambient Eval)
open Recursive.Eval

theorem Transcript.text_append (later earlier : Transcript) :
    (later ++ earlier).text = earlier.text ++ later.text := by
  simp only [Transcript.text, List.reverse_append, List.flatten_append]

namespace Bounded

variable {cfg : Config} {n : Nat} {ev : Footing → Value → Eval Value} {base : Footing}

/-- The part of a sequence that comes before others, so that each of its expressions is under a
frame. -/
def front (cfg : Config) (n : Nat) : List Value → Eval Value
  | [] => pure .empty
  | e :: rest => Recursive.sequence (under cfg (evaluate cfg n) ground) e rest

theorem sequence_append (first : Value) (rest : List Value) (next : Value) (others : List Value) :
    sequence cfg ev base first (rest ++ next :: others) =
      Recursive.sequence (under cfg ev base) first rest >>= fun _ =>
        sequence cfg ev base next others := by
  induction rest generalizing first with
  | nil => rfl
  | cons e rest ih => simp only [List.cons_append, sequence, Recursive.sequence, bind_assoc, ih]

theorem program_cons (room : 0 < cfg.maxFrames) (e : Value) (rest : List Value) :
    program cfg n (e :: rest) = sequence cfg (evaluate cfg n) ground e rest := by
  have first : ∀ e, under cfg (evaluate cfg n) ground e = evaluate cfg n ⟨1, false⟩ e :=
    fun _ => if_pos room
  cases rest with
  | nil => rfl
  | cons next others => simp only [program, sequence, first]

theorem program_append (room : 0 < cfg.maxFrames) (es : List Value) (e : Value)
    (rest : List Value) :
    program cfg n (es ++ e :: rest) = front cfg n es >>= fun _ => program cfg n (e :: rest) := by
  cases es with
  | nil => rfl
  | cons first others =>
    rw [List.cons_append, program_cons room, program_cons room, sequence_append]
    rfl

/-- What is lost for want of depth or of room. -/
def Lost (cfg : Config) (failure : Option Failure) : Prop :=
  failure = none ∨ failure = some (.stackOverflow cfg.maxFrames)

/-- By itself, the front of a sequence has one frame of room more. -/
theorem program_refines_front (room : 0 < cfg.maxFrames) (es : List Value) :
    (program cfg n es).Refines (Lost cfg) (front cfg n es) := by
  have freed : Roomier cfg (Lost cfg) ground ⟨1, false⟩ := ⟨Nat.zero_le 1, rfl, fun _ => .inr rfl⟩
  cases es with
  | nil => exact refines_refl _
  | cons e rest =>
    rw [program_cons room, front]
    induction rest generalizing e with
    | nil =>
      simp only [Recursive.sequence, sequence, under, if_pos (show ground.depth < _ from room)]
      exact evaluate_refines (.inl rfl) (Nat.le_refl n) freed e
    | cons next rest ih => exact refines_bind (refines_refl _) fun _ => ih next

theorem program_appends (cfg : Config) (n : Nat) (es : List Value) :
    (program cfg n es).Appends := by
  rcases es with _ | ⟨e, _ | ⟨next, others⟩⟩
  · exact appends_pure _
  · exact evaluate_appends cfg n ground e
  · exact appends_bind (evaluate_appends cfg n _ e) fun _ =>
      appends_sequence (evaluate_appends cfg n) next others

/-- The answer of a program is the failure of its first part, or the answer of its second part after
the first one. -/
theorem Answers.split (room : 0 < cfg.maxFrames) {es : List Value} {e : Value} {rest : List Value}
    {env : Env} {amb : Ambient} {r : Except Failure (Value × Env) × Ambient}
    (answers : Answers cfg (es ++ e :: rest) env amb r)
    (fits : r.1 ≠ .error (.stackOverflow cfg.maxFrames)) :
    (∃ f, r.1 = .error f ∧ Answers cfg es env amb r) ∨
      ∃ v env₁ amb₁ r₂, Answers cfg es env amb (.ok (v, env₁), amb₁) ∧
        Answers cfg (e :: rest) env₁ ⟨amb₁.supply, []⟩ r₂ ∧
        r = (r₂.1, r₂.2.onto amb₁.transcript) := by
  obtain ⟨n, answer⟩ := answers
  rw [program_append room] at answer
  have alone := program_refines_front (n := n) room es
  simp only [Bind.bind] at answer
  rcases first : front cfg n es env amb with _ | ⟨⟨f⟩ | ⟨v, env₁⟩, amb₁⟩
  · rw [first] at answer
    cases answer
  · rw [first] at answer
    obtain rfl := Option.some.inj answer
    refine .inl ⟨f, rfl, n, answer_of_refines alone first ?_⟩
    rintro _ ⟨⟩ (exhausted | overflowed)
    · cases exhausted
    · exact fits (congrArg Except.error (Option.some.inj overflowed))
  · rw [first] at answer
    have moved := program_appends cfg n (e :: rest) env₁ ⟨amb₁.supply, []⟩ amb₁.transcript
    obtain ⟨r₂, second, rfl⟩ := Option.map_eq_some_iff.mp (moved.symm.trans answer)
    exact .inr ⟨v, env₁, amb₁, r₂, ⟨n, answer_of_refines alone first nofun⟩, ⟨n, second⟩, rfl⟩

theorem answers_do (room : 0 < cfg.maxFrames) {e : Value} {rest : List Value} {env : Env}
    {amb : Ambient} {r : Except Failure (Value × Env) × Ambient} :
    Answers cfg [.list (.sym (ascii "do") :: e :: rest)] env amb r ↔
      Answers cfg (e :: rest) env amb r := by
  have step (n : Nat) : program cfg (n + 1) [.list (.sym (ascii "do") :: e :: rest)] =
      program cfg n (e :: rest) := by
    have read : Form.read cfg.table (.list (.sym (ascii "do") :: e :: rest)) =
      .ok (.sequence e rest) := rfl
    exact (evaluate_of_read read n ground).trans (program_cons room e rest).symm
  constructor
  · rintro ⟨_ | n, answer⟩
    · cases answer
    · exact ⟨n, by rwa [← step]⟩
  · rintro ⟨n, answer⟩
    exact ⟨n + 1, by rwa [step]⟩

end Bounded

/-- It came to what the second evaluation did, and printed what both of them did. -/
structure Evaluation.Continues (ev first second : Evaluation) : Prop where
  outcome : ev.outcome = second.outcome
  output : ev.transcript.text = first.transcript.text ++ second.transcript.text
  supply : ev.supply = second.supply

/-- Sequencing composes. A program in two parts that does not overflow the stack fails as its first
part does, or comes to what its second part does from the environment that the first one returned,
and the outputs are put together. And `do` is a program in an expression, also where it overflows.
-/
theorem sequencing_composes (table : SyscallTable) (bound : Int) (es : List Value) (e : Value)
    (rest : List Value) (env : Env) (supply : Supply) :
    let cfg := Config.ofBound table bound
    (∀ rounds ev, evalProgram cfg rounds (es ++ e :: rest) env supply = some ev →
      ¬ ev.Overflowed cfg →
      ∃ rounds₁ first, evalProgram cfg rounds₁ es env supply = some first ∧
        ((∃ f, first.outcome = .failed f) ∧ ev.SameAs first ∨
          ∃ v env₁ rounds₂ second, first.outcome = .value v env₁ ∧
            evalProgram cfg rounds₂ (e :: rest) env₁ first.supply = some second ∧
            ev.Continues first second)) ∧
    EndAlike cfg [.list (.sym (ascii "do") :: e :: rest)] (e :: rest) env supply := by
  intro cfg
  have room : 0 < cfg.maxFrames := Config.maxFrames_pos table bound
  constructor
  · intro rounds ev ended within
    obtain ⟨r, answers, gives⟩ := Machine.answer_of_evalProgram ended
    have fits : r.1 ≠ .error (.stackOverflow cfg.maxFrames) := by
      intro overflowed
      have outcome := gives.1
      rw [overflowed] at outcome
      exact within outcome
    rcases answers.split room fits with ⟨f, failed, front⟩ |
      ⟨v, env₁, amb₁, r₂, front, back, rfl⟩
    · obtain ⟨rounds₁, first, ended₁, gives₁⟩ := Machine.evalProgram_of_answer front
      have outcome := gives₁.1
      rw [failed] at outcome
      exact ⟨rounds₁, first, ended₁, .inl ⟨⟨f, outcome⟩, gives.same gives₁⟩⟩
    · obtain ⟨rounds₁, first, ended₁, value, output, supplied⟩ :=
        Machine.evalProgram_of_answer front
      rw [← supplied] at back
      obtain ⟨rounds₂, second, ended₂, gives₂⟩ := Machine.evalProgram_of_answer back
      refine ⟨rounds₁, first, ended₁, .inr ⟨v, env₁, rounds₂, second, value, ended₂, ?_⟩⟩
      refine ⟨gives.1.trans gives₂.1.symm, ?_, gives.2.2.trans gives₂.2.2.symm⟩
      rw [gives.2.1, gives₂.2.1, output]
      exact Transcript.text_append r₂.2.transcript amb₁.transcript
  · exact ⟨endsAs_of_answers (Bounded.answers_do room).mp,
      endsAs_of_answers (Bounded.answers_do room).mpr⟩

/-- A definition that prints, before an expression that reads what it defines. -/
theorem sequencing_composes_on_definition :
    let hello : Syscall := {
      name := ascii "hello", arity := 0
      run := fun _ => { printed := ascii "hello", result := .ok (.int 1) } }
    let table := SyscallTable.add [] hello
    let cfg := Config.ofBound table 2
    let x : Value := .sym [0x78]
    let definition : Value := .list [.sym (ascii "def"), x, .list [.sym (ascii "hello")]]
    (∃ rounds ev, evalProgram cfg rounds ([definition] ++ [x]) [] {} = some ev ∧
      ¬ ev.Overflowed cfg ∧
      ∃ rounds₁ first rounds₂ second, evalProgram cfg rounds₁ [definition] [] {} = some first ∧
        evalProgram cfg rounds₂ [x] [([0x78], .int 1)] first.supply = some second ∧
        ev.Continues first second) ∧
    ∃ rounds ev, evalProgram cfg rounds [.list [.sym (ascii "do"), definition, x]] [] {} = some ev ∧
      ev.outcome = .value (.int 1) [([0x78], .int 1)] := by
  intro hello table cfg x definition
  have whole : Bounded.Answers cfg ([definition] ++ [x]) [] ⟨{}, []⟩
      (.ok (.int 1, [([0x78], .int 1)]), ⟨{}, [ascii "hello"]⟩) :=
    ⟨3, by unfold cfg table hello definition x; rfl⟩
  have front : Bounded.Answers cfg [definition] [] ⟨{}, []⟩
      (.ok (.int 1, [([0x78], .int 1)]), ⟨{}, [ascii "hello"]⟩) :=
    ⟨3, by unfold cfg table hello definition x; rfl⟩
  obtain ⟨rounds, ev, ended, gives⟩ := Machine.evalProgram_of_answer whole
  have within : ¬ ev.Overflowed cfg := fun overflowed => nomatch overflowed.symm.trans gives.1
  constructor
  · obtain ⟨rounds₁, first, ended₁, parts⟩ :=
      (sequencing_composes table 2 [definition] x [] [] {}).1 rounds ev ended within
    obtain ⟨r, answers, gives₁⟩ := Machine.answer_of_evalProgram ended₁
    obtain rfl := answers.unique front
    rcases parts with ⟨⟨f, failed⟩, -⟩ | ⟨v, env₁, rounds₂, second, value, ended₂, continues⟩
    · cases failed.symm.trans gives₁.1
    · obtain ⟨rfl, rfl⟩ := Machine.Outcome.value.inj (value.symm.trans gives₁.1)
      exact ⟨rounds, ev, ended, within, rounds₁, first, rounds₂, second, ended₁, ended₂, continues⟩
  · obtain ⟨rounds', ev', ended', same⟩ :=
      (sequencing_composes table 2 [] definition [x] [] {}).2.2 rounds ev ended
    exact ⟨rounds', ev', ended', same.outcome.trans gives.1⟩

end ProcLisp
