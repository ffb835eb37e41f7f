import ProcLisp.Machine.Form
import ProcLisp.Proofs.Results

/-!
# The shapes of forms

What a well-formed expression looks like, and what is wrong with any other. `Form.read` reads an
expression as a form exactly if it has the shape of that form, and what it says of the others is
true of them.
-/

namespace ProcLisp.Form

/-! ### Shapes -/

/-- Names and expressions in pairs, or one after the other. -/
inductive Spells : Value → List (Bytes × Value) → Prop
  | paired (bs : List (Bytes × Value)) : Spells (.list (bs.map fun b => .list [.sym b.1, b.2])) bs
  | flat (bs : List (Bytes × Value)) : Spells (.list (bs.flatMap fun b => [.sym b.1, b.2])) bs

/-- What follows the word of a special form. -/
inductive Special : SpecialForm → List Value → Form → Prop
  | quote (v : Value) : Special .quote [v] (.value v)
  | branch (test yes no : Value) : Special .branch [test, yes, no] (.branch test yes no)
  | sequence (first : Value) (rest : List Value) :
      Special .sequence (first :: rest) (.sequence first rest)
  | define {name : Bytes} (free : isReserved name = false) (expr : Value) :
      Special .define [.sym name, expr] (.define name expr)
  | letIn {bindings : Value} {bs : List (Bytes × Value)} (spelled : Spells bindings bs)
      (free : ∀ b ∈ bs, isReserved b.1 = false) (first : Value) (rest : List Value) :
      Special .letIn (bindings :: first :: rest) (.letIn bs first rest)
  | lambda {params : List Bytes} (distinct : params.Nodup)
      (free : ∀ p ∈ params, isReserved p = false) (first : Value) (rest : List Value) :
      Special .lambda (.list (params.map .sym) :: first :: rest) (.lambda params (block first rest))
  | cond (clauses : List (Value × Value)) :
      Special .cond (clauses.flatMap fun c => [c.1, c.2]) (.cond clauses)
  | list (items : List Value) : Special .list items (.list items)

/-- The expression has the shape of that form. -/
inductive Shape (table : SyscallTable) : Value → Form → Prop
  | symbol (name : Bytes) : Shape table (.sym name) (.lookup name)
  | empty : Shape table (.list []) (.value .empty)
  | special {name : Bytes} {sf : SpecialForm} {args : List Value} {form : Form}
      (word : SpecialForm.ofName? name = some sf) (shape : Special sf args form) :
      Shape table (.list (.sym name :: args)) form
  | primitive {name : Bytes} {p : Primitive} {args : List Value}
      (plain : SpecialForm.ofName? name = none) (named : Primitive.ofName? name = some p)
      (arity : args.length = p.arity) :
      Shape table (.list (.sym name :: args)) (.primitive p args)
  | syscall {name : Bytes} (free : isReserved name = false) (known : table.has name)
      (args : List Value) : Shape table (.list (.sym name :: args)) (.syscall name args)
  | apply {head : Value}
      (other : ∀ name, head = .sym name → isReserved name = false ∧ table.has name = false)
      (args : List Value) : Shape table (.list (head :: args)) (.apply head args)
  | atom {v : Value} (other : v.kind ≠ Kind.symbol ∧ v.kind ≠ Kind.list) : Shape table v (.value v)
  | bareSymbol : Shape table (.bare Kind.symbol) (.lookup [])
  | bareList : Shape table (.bare Kind.list) (.value .empty)

/-! ### Faults -/

/-- A special form has a name there. -/
inductive Names : SpecialForm → List Value → Value → Prop
  | define (v expr : Value) : Names .define [v, expr] v
  | paired {items : List Value} {v expr : Value} (member : .list [v, expr] ∈ items) (first : Value)
      (rest : List Value) : Names .letIn (.list items :: first :: rest) v
  | flat (before : List (Bytes × Value)) (v expr : Value) (more : List Value) (first : Value)
      (rest : List Value) :
      Names .letIn (.list (before.flatMap (fun b => [.sym b.1, b.2]) ++ v :: expr :: more) ::
        first :: rest) v
  | lambda {params : List Value} {v : Value} (member : v ∈ params) (first : Value)
      (rest : List Value) : Names .lambda (.list params :: first :: rest) v

/-- The expression has no shape, and that is what is wrong with it. -/
inductive Misshapen : Value → Failure → Prop
  | special {name : Bytes} {sf : SpecialForm} {args : List Value}
      (word : SpecialForm.ofName? name = some sf) (shapeless : ∀ form, ¬ Special sf args form) :
      Misshapen (.list (.sym name :: args)) (.malformed (.sym name :: args))
  | name {name : Bytes} {sf : SpecialForm} {args : List Value} {v : Value}
      (word : SpecialForm.ofName? name = some sf) (wanted : Names sf args v)
      (other : ∀ n, v ≠ .sym n) : Misshapen (.list (.sym name :: args)) (.nonSymbolName v)
  | bindings {name : Bytes} {bindings first : Value} {rest : List Value}
      (word : SpecialForm.ofName? name = some .letIn) (unspelled : ∀ bs, ¬ Spells bindings bs) :
      Misshapen (.list (.sym name :: bindings :: first :: rest)) (.unevenBindings bindings)
  | arity {name : Bytes} {p : Primitive} {args : List Value}
      (plain : SpecialForm.ofName? name = none) (named : Primitive.ofName? name = some p)
      (wrong : args.length ≠ p.arity) :
      Misshapen (.list (.sym name :: args)) (.arityMismatch (.sym name) p.arity args.length)

variable {table : SyscallTable} {whole bindings expr : Value} {form : List Value}
  {items args params : List Value} {bs : List (Bytes × Value)} {names seen : List Bytes} {f : Form}
  {e : Failure} {sf : SpecialForm}

/-! ### Bindings -/

theorem readPairs_paired (whole : Value) (bs : List (Bytes × Value)) :
    readPairs whole (bs.map fun b => .list [.sym b.1, b.2]) = .ok bs := by
  induction bs with
  | nil => rfl
  | cons b bs ih =>
    simp only [List.map_cons, readPairs, ih]
    rfl

theorem readFlat_flat (whole : Value) (bs : List (Bytes × Value)) :
    readFlat whole (bs.flatMap fun b => [.sym b.1, b.2]) = .ok bs := by
  induction bs with
  | nil => rfl
  | cons b bs ih =>
    simp only [List.flatMap_cons, List.cons_append, List.nil_append, readFlat, ih]
    rfl

theorem paired_of_readPairs (read : readPairs whole items = .ok bs) :
    items = bs.map fun b => .list [.sym b.1, b.2] := by
  fun_induction readPairs whole items generalizing bs with
  | case1 =>
    obtain rfl := Except.ok.inj read
    rfl
  | case2 name expr rest ih =>
    obtain ⟨later, found, rfl⟩ := exists_of_map_ok read
    rw [ih found]
    rfl
  | case3 => cases read
  | case4 => cases read

theorem flat_of_readFlat (read : readFlat whole items = .ok bs) :
    items = bs.flatMap fun b => [.sym b.1, b.2] := by
  fun_induction readFlat whole items generalizing bs with
  | case1 =>
    obtain rfl := Except.ok.inj read
    rfl
  | case2 => cases read
  | case3 name expr rest ih =>
    obtain ⟨later, found, rfl⟩ := exists_of_map_ok read
    rw [ih found]
    rfl
  | case4 => cases read

theorem readPairs_fault (read : readPairs whole items = .error e) :
    e = .unevenBindings whole ∨
      ∃ v expr, .list [v, expr] ∈ items ∧ (∀ n, v ≠ .sym n) ∧ e = .nonSymbolName v := by
  fun_induction readPairs whole items with
  | case1 => cases read
  | case2 name expr rest ih =>
    cases later : readPairs whole rest with
    | ok bs =>
      rw [later] at read
      cases read
    | error e' =>
      rw [later] at read
      obtain rfl := Except.error.inj read
      rcases ih later with uneven | ⟨v, expr', member, other, same⟩
      · exact .inl uneven
      · exact .inr ⟨v, expr', List.mem_cons_of_mem _ member, other, same⟩
  | case3 v expr rest other =>
    exact .inr ⟨v, expr, List.mem_cons_self, other, (Except.error.inj read).symm⟩
  | case4 => exact .inl (Except.error.inj read).symm

theorem readFlat_fault (read : readFlat whole items = .error e) :
    e = .unevenBindings whole ∨ ∃ (before : List (Bytes × Value)) (v expr : Value)
      (more : List Value), items = before.flatMap (fun b => [.sym b.1, b.2]) ++ v :: expr :: more ∧
        (∀ n, v ≠ .sym n) ∧ e = .nonSymbolName v := by
  fun_induction readFlat whole items with
  | case1 => cases read
  | case2 => exact .inl (Except.error.inj read).symm
  | case3 name expr rest ih =>
    cases later : readFlat whole rest with
    | ok bs =>
      rw [later] at read
      cases read
    | error e' =>
      rw [later] at read
      obtain rfl := Except.error.inj read
      rcases ih later with uneven | ⟨before, v, expr', more, rfl, other, same⟩
      · exact .inl uneven
      · exact .inr ⟨(name, expr) :: before, v, expr', more, rfl, other, same⟩
  | case4 v expr rest other =>
    exact .inr ⟨[], v, expr, rest, rfl, other, (Except.error.inj read).symm⟩

/-- The bindings of a `let` are read as what they spell. -/
theorem readBindings_eq_ok : readBindings bindings = .ok bs ↔ Spells bindings bs := by
  constructor
  · intro read
    unfold readBindings at read
    split at read
    · obtain rfl := Except.ok.inj read
      exact .flat []
    · split at read
      · rw [paired_of_readPairs read]
        exact .paired bs
      split at read
      · cases read
      · rw [flat_of_readFlat read]
        exact .flat bs
    · cases read
  · rintro (_ | _)
    · cases bs with
      | nil => rfl
      | cons b bs => exact readPairs_paired _ (b :: bs)
    · cases bs with
      | nil => rfl
      | cons b bs =>
        have even (bs : List (Bytes × Value)) :
            (bs.flatMap fun b => [Value.sym b.1, b.2]).length = 2 * bs.length := by
          simp [List.length_flatMap, List.map_const', Nat.mul_comm]
        have length := even (b :: bs)
        have differ : Kind.symbol ≠ Kind.list := by decide
        have symbol : (Value.sym b.1).kind ≠ Kind.list := differ
        rw [readBindings.eq_def]
        simp only [List.flatMap_cons, List.cons_append, List.nil_append] at length ⊢
        rw [if_neg symbol, length, if_neg (by simp)]
        exact readFlat_flat _ (b :: bs)

theorem readBindings_fault (read : readBindings bindings = .error e) :
    e = .unevenBindings bindings ∨ ∃ v, e = .nonSymbolName v ∧ (∀ n, v ≠ .sym n) ∧
      ∀ first rest, Names .letIn (bindings :: first :: rest) v := by
  unfold readBindings at read
  split at read
  · cases read
  · split at read
    · rcases readPairs_fault read with uneven | ⟨v, expr, member, other, same⟩
      · exact .inl uneven
      · exact .inr ⟨v, same, other, .paired member⟩
    split at read
    · exact .inl (Except.error.inj read).symm
    · rcases readFlat_fault read with uneven | ⟨before, v, expr, more, same, other, fault⟩
      · exact .inl uneven
      · rw [same]
        exact .inr ⟨v, fault, other, .flat before v expr more⟩
  · exact .inl (Except.error.inj read).symm

/-! ### Parameters and clauses -/

/-- Parameters are symbols, told from each other and from the reserved names. -/
theorem readParams_eq_ok : readParams form seen params = .ok names ↔
    params = names.map .sym ∧ names.Nodup ∧ ∀ n ∈ names, n ∉ seen ∧ isReserved n = false := by
  constructor
  · intro read
    fun_induction readParams form seen params generalizing names with
    | case1 =>
      obtain rfl := Except.ok.inj read
      simp
    | case2 => cases read
    | case3 seen name rest free ih =>
      obtain ⟨later, found, rfl⟩ := exists_of_map_ok read
      obtain ⟨rfl, distinct, fresh⟩ := ih found
      simp only [Bool.or_eq_true, List.contains_iff_mem, not_or, Bool.not_eq_true] at free
      refine ⟨rfl, List.nodup_cons.mpr ⟨fun again => ?_, distinct⟩, ?_⟩
      · exact (fresh name again).1 List.mem_cons_self
      · intro n member
        rcases List.mem_cons.mp member with rfl | member
        · exact free
        · exact (fresh n member).imp_left fun unseen old => unseen (List.mem_cons_of_mem _ old)
    | case4 => cases read
  · rintro ⟨rfl, distinct, fresh⟩
    induction names generalizing seen with
    | nil => rfl
    | cons name names ih =>
      obtain ⟨unseen, free⟩ := fresh name List.mem_cons_self
      obtain ⟨single, distinct⟩ := List.nodup_cons.mp distinct
      have later : readParams form (name :: seen) (names.map .sym) = .ok names := by
        refine ih distinct fun n member => ?_
        obtain ⟨fresh, unreserved⟩ := fresh n (List.mem_cons_of_mem _ member)
        refine ⟨fun old => ?_, unreserved⟩
        rcases List.mem_cons.mp old with rfl | old
        · exact single member
        · exact fresh old
      rw [List.map_cons, readParams, if_neg (by simp [unseen, free]), later]
      rfl

theorem readParams_fault (read : readParams form seen params = .error e) :
    e = .malformed form ∨ ∃ v ∈ params, (∀ n, v ≠ .sym n) ∧ e = .nonSymbolName v := by
  fun_induction readParams form seen params with
  | case1 => cases read
  | case2 => exact .inl (Except.error.inj read).symm
  | case3 seen name rest free ih =>
    cases later : readParams form (name :: seen) rest with
    | ok names =>
      rw [later] at read
      cases read
    | error e' =>
      rw [later] at read
      obtain rfl := Except.error.inj read
      rcases ih later with malformed | ⟨v, member, other, same⟩
      · exact .inl malformed
      · exact .inr ⟨v, List.mem_cons_of_mem _ member, other, same⟩
  | case4 seen v rest other =>
    exact .inr ⟨v, List.mem_cons_self, other, (Except.error.inj read).symm⟩

theorem readClauses_eq_some {clauses : List (Value × Value)} :
    readClauses items = some clauses ↔ items = clauses.flatMap fun c => [c.1, c.2] := by
  constructor
  · intro read
    fun_induction readClauses items generalizing clauses with
    | case1 =>
      obtain rfl := Option.some.inj read
      rfl
    | case2 => cases read
    | case3 test body rest ih =>
      obtain ⟨later, found, rfl⟩ := Option.map_eq_some_iff.mp read
      rw [ih found]
      rfl
  · rintro rfl
    induction clauses with
    | nil => rfl
    | cons c clauses ih =>
      simp only [List.flatMap_cons, List.cons_append, List.nil_append, readClauses, ih]
      rfl

/-! ### Special forms -/

theorem readSpecial_eq_ok : readSpecial form sf args = .ok f ↔ Special sf args f := by
  constructor
  · intro read
    unfold readSpecial at read
    split at read
    · obtain rfl := Except.ok.inj read
      exact .quote _
    · obtain rfl := Except.ok.inj read
      exact .branch _ _ _
    · obtain rfl := Except.ok.inj read
      exact .sequence _ _
    · split at read
      · cases read
      · rename_i free
        obtain rfl := Except.ok.inj read
        exact .define (by simpa using free) _
    · cases read
    · split at read
      · cases read
      rename_i found
      split at read
      · cases read
      · rename_i free
        obtain rfl := Except.ok.inj read
        refine .letIn (readBindings_eq_ok.mp found) (fun b member => ?_) _ _
        simp only [List.any_eq_true, not_exists, not_and] at free
        simpa using free b member
    · obtain ⟨names, found, rfl⟩ := exists_of_map_ok read
      obtain ⟨rfl, distinct, free⟩ := readParams_eq_ok.mp found
      exact .lambda distinct (fun p member => (free p member).2) _ _
    · split at read
      · rename_i found
        obtain rfl := Except.ok.inj read
        rw [readClauses_eq_some.mp found]
        exact .cond _
      · cases read
    · obtain rfl := Except.ok.inj read
      exact .list _
    · cases read
  · intro shape
    cases shape with
    | define free expr => simp [readSpecial, free]
    | @letIn bindings bs spelled free first rest =>
      simp only [readSpecial, readBindings_eq_ok.mpr spelled]
      rw [if_neg (by simpa using free)]
    | @lambda names distinct free first rest =>
      have found : readParams form [] (names.map .sym) = .ok names :=
        readParams_eq_ok.mpr ⟨rfl, distinct, fun n member => ⟨by simp, free n member⟩⟩
      simp only [readSpecial, found]
      rfl
    | cond clauses => simp only [readSpecial, readClauses_eq_some.mpr rfl]
    | _ => rfl

/-- What is wrong with a special form: its shape, or what stands where a name has to, or how its
bindings are spelled. -/
theorem readSpecial_fault (read : readSpecial form sf args = .error e) :
    e = .malformed form ∨ (∃ v, e = .nonSymbolName v ∧ (∀ n, v ≠ .sym n) ∧ Names sf args v) ∨
      ∃ bindings first rest, sf = .letIn ∧ args = bindings :: first :: rest ∧
        (∀ bs, ¬ Spells bindings bs) ∧ e = .unevenBindings bindings := by
  unfold readSpecial at read
  split at read
  · cases read
  · cases read
  · cases read
  · split at read
    · exact .inl (Except.error.inj read).symm
    · cases read
  · rename_i v expr other
    exact .inr (.inl ⟨v, (Except.error.inj read).symm, other, .define v expr⟩)
  · rename_i bindings first rest
    split at read
    · rename_i e' unread
      obtain rfl := Except.error.inj read
      rcases readBindings_fault unread with uneven | ⟨v, same, other, named⟩
      · refine .inr (.inr ⟨bindings, first, rest, rfl, rfl, fun bs spelled => ?_, uneven⟩)
        rw [readBindings_eq_ok.mpr spelled] at unread
        cases unread
      · exact .inr (.inl ⟨v, same, other, named first rest⟩)
    · split at read
      · exact .inl (Except.error.inj read).symm
      · cases read
  · rename_i params first rest
    cases found : readParams form [] params with
    | ok names =>
      rw [found] at read
      cases read
    | error e' =>
      rw [found] at read
      obtain rfl := Except.error.inj read
      rcases readParams_fault found with malformed | ⟨v, member, other, same⟩
      · exact .inl malformed
      · exact .inr (.inl ⟨v, same, other, .lambda member first rest⟩)
  · split at read
    · cases read
    · exact .inl (Except.error.inj read).symm
  · cases read
  · exact .inl (Except.error.inj read).symm

/-! ### Expressions -/

theorem not_reserved {name : Bytes} : isReserved name = false ↔
    SpecialForm.ofName? name = none ∧ Primitive.ofName? name = none := by
  simp [isReserved]

theorem readList_of_shape {head : Value} (shape : Shape table (.list (head :: args)) f) :
    readList table head args = .ok f := by
  cases shape with
  | special word shape =>
    simp only [readList, word]
    exact readSpecial_eq_ok.mpr shape
  | primitive plain named arity => simp only [readList, plain, named, if_pos arity]
  | syscall free known args =>
    obtain ⟨plain, unnamed⟩ := not_reserved.mp free
    simp only [readList, plain, unnamed, if_pos known]
  | apply other args =>
    cases head with
    | sym name =>
      obtain ⟨free, unknown⟩ := other name rfl
      obtain ⟨plain, unnamed⟩ := not_reserved.mp free
      simp only [readList, plain, unnamed, unknown]
      rfl
    | _ => rfl
  | atom other => exact absurd rfl other.2

theorem shape_of_readList {head : Value} (read : readList table head args = .ok f) :
    Shape table (.list (head :: args)) f := by
  unfold readList at read
  split at read
  · rename_i name
    split at read
    · rename_i sf word
      exact .special word (readSpecial_eq_ok.mp read)
    · rename_i plain
      split at read
      · rename_i p named
        split at read
        · rename_i arity
          obtain rfl := Except.ok.inj read
          exact .primitive plain named arity
        · cases read
      · rename_i unnamed
        have free := not_reserved.mpr ⟨plain, unnamed⟩
        obtain rfl := Except.ok.inj read
        split
        · rename_i known
          exact .syscall free known args
        · rename_i unknown
          refine .apply (fun name' same => ?_) args
          obtain rfl := Value.sym.inj same
          exact ⟨free, by simpa using unknown⟩
  · rename_i other
    obtain rfl := Except.ok.inj read
    exact .apply (fun name same => absurd same (other name)) args

theorem read_bare {k : Bytes} : read table (.bare k) = .ok f ↔ Shape table (.bare k) f := by
  have differ : Kind.list ≠ Kind.symbol := by decide
  constructor
  · intro read
    obtain rfl := Except.ok.inj read
    by_cases symbol : k = Kind.symbol
    · rw [if_pos symbol, symbol]
      exact .bareSymbol
    by_cases list : k = Kind.list
    · rw [if_neg symbol, if_pos list, list]
      exact .bareList
    · rw [if_neg symbol, if_neg list]
      exact .atom ⟨symbol, list⟩
  · intro shape
    refine congrArg Except.ok ?_
    cases shape with
    | atom other => exact (if_neg other.1).trans (if_neg other.2)
    | bareSymbol => exact if_pos rfl
    | bareList => exact (if_neg differ).trans (if_pos rfl)

/-- An expression is read as a form exactly if it has the shape of that form. -/
theorem read_eq_ok : read table expr = .ok f ↔ Shape table expr f := by
  cases expr with
  | sym name =>
    constructor
    · intro read
      obtain rfl := Except.ok.inj read
      exact .symbol name
    · intro shape
      cases shape with
      | symbol => rfl
      | atom other => exact absurd rfl other.1
  | list items =>
    cases items with
    | nil =>
      constructor
      · intro read
        obtain rfl := Except.ok.inj read
        exact .empty
      · intro shape
        cases shape with
        | empty => rfl
        | atom other => exact absurd rfl other.2
    | cons head args => exact ⟨shape_of_readList, readList_of_shape⟩
  | bare k => exact read_bare
  | _ =>
    constructor
    · intro read
      obtain rfl := Except.ok.inj read
      refine .atom ?_
      dsimp only [Value.kind]
      decide
    · intro shape
      cases shape
      rfl

/-- What is said of an expression that is not read is true of it. -/
theorem read_fault (read : read table expr = .error e) : Misshapen expr e := by
  unfold Form.read at read
  split at read
  · cases read
  · cases read
  · rename_i head args
    unfold readList at read
    split at read
    · rename_i name
      split at read
      · rename_i sf word
        rcases readSpecial_fault read with rfl | ⟨v, rfl, other, named⟩ |
          ⟨bindings, first, rest, rfl, rfl, unspelled, rfl⟩
        · refine .special word fun form shape => ?_
          rw [readSpecial_eq_ok.mpr shape] at read
          cases read
        · exact .name word named other
        · exact .bindings word unspelled
      · rename_i plain
        split at read
        · rename_i p named
          split at read
          · cases read
          · rename_i wrong
            obtain rfl := Except.error.inj read
            exact .arity plain named wrong
        · cases read
    · cases read
  · cases read
  · cases read

end ProcLisp.Form
