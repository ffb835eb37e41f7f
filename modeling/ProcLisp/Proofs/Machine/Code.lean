import ProcLisp.Proofs.Machine.Shapes
import ProcLisp.Proofs.Value.Likeness

/-!
# Code that two runs evaluate alike

Whatever is read off such code is such code again: the parts of its forms, the bodies of its
lambdas, and the names that it binds.
-/

namespace ProcLisp

namespace Likeness

variable {L : Likeness} {v w : Value} {s : Bytes}

theorem code_items {items : List Value} (code : L.Code (.list items)) :
    (∀ e ∈ items, L.Code e) ∨
      ∃ rest, items = .sym (ascii "do") :: rest ∧ ∀ e ∈ rest, L.Code e := by
  cases code with
  | list length each =>
    have both : List.Forall₂ (L.Alike true) items items := forall₂_of_zip length each
    have all := List.forall₂_same.mp both
    exact .inl fun e member => all e member
  | @block rest _ length each =>
    have both : List.Forall₂ (L.Alike true) rest rest := forall₂_of_zip length each
    have all := List.forall₂_same.mp both
    exact .inr ⟨rest, rfl, fun e member => all e member⟩

theorem code_of_mem {items : List Value} (code : L.Code (.list items)) :
    ∀ e ∈ items, L.Code e ∨ e = .sym (ascii "do") := by
  intro e member
  rcases code_items code with each | ⟨rest, rfl, each⟩
  · exact .inl (each e member)
  · rcases List.mem_cons.mp member with head | later
    · exact .inr head
    · exact .inl (each e later)

theorem code_of_mem_tail {head : Value} {items : List Value}
    (code : L.Code (.list (head :: items))) : ∀ e ∈ items, L.Code e := by
  intro e member
  rcases code_items code with each | ⟨rest, same, each⟩
  · exact each e (List.mem_cons_of_mem _ member)
  · obtain ⟨-, rfl⟩ := List.cons.inj same
    exact each e member

theorem word_of_code (code : L.Code (.sym s)) : L.word s := by
  cases code with
  | sym seen => exact seen rfl

/-- A name where code binds one: the symbol of a block is none. -/
theorem binds_of_code (named : L.Code (.sym s) ∨ Value.sym s = .sym (ascii "do"))
    (free : isReserved s = false) : L.binds s := by
  rcases named with code | block
  · exact L.binds_of_word (word_of_code code) free
  · obtain rfl := Value.sym.inj block
    simp [isReserved, SpecialForm.ofName?, SpecialForm.words] at free

theorem code_block {first : Value} {rest : List Value} (code : L.Code first)
    (later : ∀ e ∈ rest, L.Code e) : L.Code (Form.block first rest) := by
  cases rest with
  | nil => exact code
  | cons next others =>
    refine .block rfl (zip_of_forall₂ (List.forall₂_same.mpr fun e member => ?_))
    rcases List.mem_cons.mp member with rfl | member
    · exact code
    · exact later e member

/-- A form that two runs evaluate alike. -/
def FormCode (L : Likeness) : Form → Prop
  | .value v => L.Alike false v v
  | .lookup name => L.word name
  | .branch test yes no => L.Code test ∧ L.Code yes ∧ L.Code no
  | .sequence first rest => L.Code first ∧ ∀ e ∈ rest, L.Code e
  | .define name expr => L.binds name ∧ L.Code expr
  | .letIn bindings first rest =>
    (∀ b ∈ bindings, L.binds b.1 ∧ L.Code b.2) ∧ L.Code first ∧ ∀ e ∈ rest, L.Code e
  | .lambda params body => (∀ s ∈ params, L.binds s) ∧ L.Code body
  | .cond clauses => ∀ c ∈ clauses, L.Code c.1 ∧ L.Code c.2
  | .list items | .primitive _ items | .syscall _ items => ∀ e ∈ items, L.Code e
  | .apply head args => L.Code head ∧ ∀ e ∈ args, L.Code e

/-- What is known of a binding: a name, which may be that of a block, and code. -/
def Bound (L : Likeness) (b : Bytes × Value) : Prop :=
  (L.Code (.sym b.1) ∨ Value.sym b.1 = .sym (ascii "do")) ∧ L.Code b.2

theorem bound_of_spells {bindings : Value} {bs : List (Bytes × Value)} (code : L.Code bindings)
    (spelled : Form.Spells bindings bs) : ∀ b ∈ bs, L.Bound b := by
  intro b member
  cases spelled with
  | paired =>
    rcases code_of_mem code _ (List.mem_map_of_mem member) with pair | block
    · exact ⟨code_of_mem pair _ List.mem_cons_self, code_of_mem_tail pair _ (by simp)⟩
    · cases block
  | flat =>
    cases bs with
    | nil => cases member
    | cons first bs =>
      -- only the first name can be the symbol of a block
      have later := code_of_mem_tail code
      rcases List.mem_cons.mp member with rfl | member
      · exact ⟨code_of_mem code _ List.mem_cons_self, later _ List.mem_cons_self⟩
      · have parts : ∀ e ∈ [Value.sym b.1, b.2], L.Code e := fun e part =>
          later e (List.mem_cons_of_mem _ (List.mem_flatMap.mpr ⟨b, member, part⟩))
        exact ⟨.inl (parts _ (by simp)), parts _ (by simp)⟩

theorem formCode_of_special {args : List Value} {sf : SpecialForm} {form : Form}
    (code : ∀ e ∈ args, L.Code e) (shape : Form.Special sf args form) : L.FormCode form := by
  cases shape with
  | quote v => exact (code v (by simp)).data
  | branch test yes no => exact ⟨code _ (by simp), code _ (by simp), code _ (by simp)⟩
  | sequence first rest => exact ⟨code _ (by simp), fun e member => code e (by simp [member])⟩
  | define free expr => exact ⟨binds_of_code (.inl (code _ (by simp))) free, code _ (by simp)⟩
  | letIn spelled free first rest =>
    refine ⟨fun b member => ?_, code _ (by simp), fun e member => code e (by simp [member])⟩
    obtain ⟨named, expr⟩ := bound_of_spells (code _ (by simp)) spelled b member
    exact ⟨binds_of_code named (free b member), expr⟩
  | lambda distinct free first rest =>
    refine ⟨fun s member => ?_,
      code_block (code _ (by simp)) fun e member => code e (by simp [member])⟩
    have named := code_of_mem (code _ List.mem_cons_self) _ (List.mem_map_of_mem member)
    exact binds_of_code named (free s member)
  | cond clauses =>
    intro c member
    have parts : ∀ e ∈ [c.1, c.2], L.Code e := fun e part =>
      code e (List.mem_flatMap.mpr ⟨c, member, part⟩)
    exact ⟨parts _ (by simp), parts _ (by simp)⟩
  | list => exact code

theorem formCode_read {table : SyscallTable} {expr : Value} {form : Form} (code : L.Code expr)
    (read : Form.read table expr = .ok form) : L.FormCode form := by
  cases Form.read_eq_ok.mp read with
  | symbol => exact word_of_code code
  | empty => exact .empty
  | special word shape => exact formCode_of_special (code_of_mem_tail code) shape
  | primitive => exact code_of_mem_tail code
  | syscall => exact code_of_mem_tail code
  | apply other =>
    refine ⟨?_, code_of_mem_tail code⟩
    rcases code_of_mem code _ List.mem_cons_self with head | block
    · exact head
    · -- the symbol of a block is not evaluated
      have free := (other _ block).1
      simp [isReserved, SpecialForm.ofName?, SpecialForm.words] at free
  | atom => exact code.data
  | bareSymbol =>
    cases code with
    | bare _ seen => exact seen rfl rfl
  | bareList => exact .empty

end Likeness
end ProcLisp
