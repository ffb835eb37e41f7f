import Mathlib.Data.Nat.Digits.Defs
import ProcLisp.Proofs.Reader.Tokens
import ProcLisp.Proofs.Text.Digits

/-!
# The grammar

A program is a sequence of items, and an item is a list of items, a quoted item, a string or an
atom. `parse_eq_ok_iff` says that a text is read exactly if no string is left open in it and its
tokens are those of a program, and then as the trees of that program.
-/

namespace ProcLisp.Reader

/-! ### Atoms -/

/-- The number with these decimal digits, the highest first. -/
def decimal (digits : Bytes) : Nat := Nat.ofDigits 10 (digits.reverse.map fun c => c.toNat - 0x30)

def IsDigits (s : Bytes) : Prop := s ≠ [] ∧ ∀ c ∈ s, Bytes.isDigit c

/-- Decimal digits after an optional sign, and their number. -/
inductive Numeral : Bytes → Int → Prop
  | bare {s : Bytes} (digits : IsDigits s) : Numeral s (decimal s)
  | plus {s : Bytes} (digits : IsDigits s) : Numeral (0x2b :: s) (decimal s)
  | minus {s : Bytes} (digits : IsDigits s) : Numeral (0x2d :: s) (-decimal s)

def booleans : List Bytes := [ascii "#t", ascii "true", ascii "#f", ascii "false"]

/-- A boolean, a number of 64 bits, or else a symbol. -/
inductive Denotes (s : Bytes) : Value → Prop
  | yes (word : s = ascii "#t" ∨ s = ascii "true") : Denotes s (.bool true)
  | no (word : s = ascii "#f" ∨ s = ascii "false") : Denotes s (.bool false)
  | int {n : Int64} (numeral : Numeral s n.toInt) : Denotes s (.int n)
  | sym (word : s ∉ booleans)
      (numeral : ∀ n : Int64, ¬ Numeral s n.toInt) : Denotes s (.sym s)

theorem foldl_digits (s : Bytes) (n : Nat) :
    s.foldl (fun n c => 10 * n + (c.toNat - 0x30)) n =
      Nat.ofDigits 10 (s.reverse.map fun c => c.toNat - 0x30) + 10 ^ s.length * n := by
  induction s generalizing n with
  | nil => simp
  | cons c s ih =>
    rw [List.foldl_cons, ih, List.reverse_cons, List.map_append, Nat.ofDigits_append]
    simp only [List.map_cons, List.map_nil, List.length_map, List.length_reverse,
      Nat.ofDigits_singleton, List.length_cons]
    ring

theorem toNat?_eq_some {s : Bytes} {n : Nat} :
    Bytes.toNat? s = some n ↔ IsDigits s ∧ n = decimal s := by
  have value := foldl_digits s 0
  rw [Nat.mul_zero, Nat.add_zero] at value
  unfold Bytes.toNat? IsDigits decimal
  rw [value]
  split
  · rename_i other
    refine ⟨nofun, fun ⟨digits, _⟩ => ?_⟩
    have all : s.all Bytes.isDigit := List.all_eq_true.mpr digits.2
    simp [digits.1, all] at other
  · rename_i digits
    simp only [Bool.or_eq_true, List.isEmpty_iff, Bool.not_eq_true', not_or,
      Bool.not_eq_false, List.all_eq_true] at digits
    rw [Option.some.injEq]
    exact ⟨fun same => ⟨digits, same.symm⟩, fun told => told.2.symm⟩

theorem toInt?_eq_some {s : Bytes} {n : Int} : Bytes.toInt? s = some n ↔ Numeral s n := by
  constructor
  · intro read
    unfold Bytes.toInt? at read
    split at read
    · obtain ⟨m, number, rfl⟩ := Option.map_eq_some_iff.mp read
      obtain ⟨digits, rfl⟩ := toNat?_eq_some.mp number
      exact .plus digits
    · obtain ⟨m, number, rfl⟩ := Option.map_eq_some_iff.mp read
      obtain ⟨k, number, same⟩ := Option.bind_eq_some_iff.mp number
      obtain ⟨digits, rfl⟩ := toNat?_eq_some.mp number
      obtain rfl := Option.some.inj same
      exact .minus digits
    · obtain ⟨m, number, rfl⟩ := Option.map_eq_some_iff.mp read
      obtain ⟨digits, rfl⟩ := toNat?_eq_some.mp number
      exact .bare digits
  · intro numeral
    cases numeral with
    | bare digits =>
      rw [Bytes.toInt?_of_digits digits.2, toNat?_eq_some.mpr ⟨digits, rfl⟩]
      rfl
    | plus digits => simp [Bytes.toInt?, toNat?_eq_some.mpr ⟨digits, rfl⟩]
    | minus digits => simp [Bytes.toInt?, toNat?_eq_some.mpr ⟨digits, rfl⟩]

theorem int?_eq_some {s : Bytes} {n : Int64} : int? s = some n ↔ Numeral s n.toInt := by
  rw [← toInt?_eq_some, int?]
  cases Bytes.toInt? s with
  | none => simp
  | some k =>
    have least := n.le_toInt
    have most := n.toInt_lt
    simp only [Int64.toInt_minValue, Int64.toInt_maxValue, Option.some.injEq]
    split
    · rename_i fits
      rw [Option.some.injEq]
      constructor
      · rintro rfl
        exact (Int64.toInt_ofInt_of_le (by omega) (by omega)).symm
      · rintro rfl
        exact Int64.ofInt_toInt n
    · rename_i large
      refine ⟨(fun none => by cases none), ?_⟩
      rintro rfl
      exact absurd ⟨by omega, by omega⟩ large

/-- An atom is read as what it denotes. -/
theorem denotes_iff {s : Bytes} {v : Value} : Denotes s v ↔ v = atomValue s := by
  constructor
  · intro denotes
    cases denotes with
    | yes word => rw [atomValue, if_pos word]
    | no word => rcases word with rfl | rfl <;> rfl
    | int numeral =>
      have read := int?_eq_some.mpr numeral
      -- no boolean is a numeral
      have other : s ∉ booleans := by
        intro word
        have none : ∀ w ∈ booleans, int? w = none := by decide
        rw [none s word] at read
        cases read
      simp only [booleans, List.mem_cons, List.not_mem_nil, or_false, not_or] at other
      rw [atomValue, if_neg (by simp [other]), if_neg (by simp [other]), read]
    | sym word numeral =>
      simp only [booleans, List.mem_cons, List.not_mem_nil, or_false, not_or] at word
      rw [atomValue, if_neg (by simp [word]), if_neg (by simp [word])]
      cases read : int? s with
      | none => rfl
      | some n => exact absurd (int?_eq_some.mp read) (numeral n)
  · rintro rfl
    unfold atomValue
    split
    · exact .yes ‹_›
    split
    · exact .no ‹_›
    split
    · exact .int (int?_eq_some.mp ‹_›)
    · rename_i yes no none
      refine .sym (by simp_all [booleans]) fun n numeral => ?_
      rw [int?_eq_some.mpr numeral] at none
      cases none

/-! ### Derivations -/

mutual

/-- The tokens of an item, and its tree. -/
inductive Item : List Token → Value → Prop
  | list {ts : List Token} {items : List Value} (inner : Items ts items) :
      Item (.opening :: ts ++ [.closing]) (.list items)
  | quote {ts : List Token} {v : Value} (inner : Item ts v) :
      Item (.quote :: ts) (.list [.sym (ascii "quote"), v])
  | text (raw : Bytes) : Item [.text raw] (.str (unescaped raw))
  | atom {s : Bytes} {v : Value} (denotes : Denotes s v) : Item [.atom s] v

inductive Items : List Token → List Value → Prop
  | nil : Items [] []
  | cons {ts us : List Token} {v : Value} {vs : List Value} (first : Item ts v)
      (rest : Items us vs) : Items (ts ++ us) (v :: vs)

end

theorem Items.snoc {ts us : List Token} {vs : List Value} {v : Value} (items : Items ts vs)
    (last : Item us v) : Items (ts ++ us) (vs ++ [v]) := by
  match items with
  | .nil => simpa using Items.cons last .nil
  | .cons first rest =>
    rw [List.append_assoc]
    exact .cons first (rest.snoc last)

/-! ### From derivations to places -/

mutual

theorem feedAll_item {ts : List Token} {v : Value} (item : Item ts v) (p : Place) :
    feedAll ts p = some (settle v p.1 p.2) := by
  match item with
  | @Item.list _ items inner =>
    have closes : feedAll [.closing] (.list 0 (items.reverse ++ []) :: p.1, p.2) =
        some (settle (.list items) p.1 p.2) := by
      simp [Token.feed]
    rw [feedAll_append, feedAll_cons, Token.feed, Option.bind_some, feedAll_items inner,
      settleAll_list]
    exact closes
  | .quote inner => rw [feedAll_cons, Token.feed, Option.bind_some, feedAll_item inner]; rfl
  | .text raw => rfl
  | .atom denotes =>
    rw [denotes_iff.mp denotes]
    rfl

theorem feedAll_items {ts : List Token} {vs : List Value} (items : Items ts vs) (p : Place) :
    feedAll ts p = some (settleAll vs p) := by
  match items with
  | .nil => rfl
  | .cons first rest =>
    rw [feedAll_append, feedAll_item first, Option.bind_some, feedAll_items rest]
    rfl

end

/-! ### From places to derivations -/

/-- Tokens that lead to a place: complete items, and the beginnings of the lists and quoted items
that are open. -/
inductive Leads : List Token → List Opened → List Value → Prop
  | done {ts : List Token} {done : List Value} (items : Items ts done.reverse) : Leads ts [] done
  | list {ts us : List Token} {opened : List Opened} {done items : List Value} (left : Nat)
      (outer : Leads ts opened done) (inner : Items us items.reverse) :
      Leads (ts ++ .opening :: us) (.list left items :: opened) done
  | quote {ts : List Token} {opened : List Opened} {done : List Value}
      (outer : Leads ts opened done) : Leads (ts ++ [.quote]) (.quote :: opened) done

theorem Leads.settle {ts us : List Token} {opened : List Opened} {done : List Value} {v : Value}
    (leads : Leads ts opened done) (item : Item us v) :
    Leads (ts ++ us) (settle v opened done).1 (settle v opened done).2 := by
  induction leads generalizing us v with
  | done items =>
    refine .done ?_
    simpa [Reader.settle] using items.snoc item
  | list left outer inner ih =>
    rw [List.append_assoc, List.cons_append]
    refine .list left outer ?_
    rw [List.reverse_cons]
    exact inner.snoc item
  | quote outer ih =>
    rw [List.append_assoc]
    exact ih item.quote

theorem Leads.feed {ts : List Token} {t : Token} {p q : Place} (leads : Leads ts p.1 p.2)
    (fed : t.feed p = some q) : Leads (ts ++ [t]) q.1 q.2 := by
  obtain ⟨opened, done⟩ := p
  cases t with
  | opening =>
    obtain rfl := Option.some.inj fed
    exact .list 0 leads .nil
  | closing =>
    cases leads with
    | done items => cases fed
    | quote outer => cases fed
    | list left outer inner =>
      obtain rfl := Option.some.inj fed
      simpa using outer.settle (.list inner)
  | quote =>
    obtain rfl := Option.some.inj fed
    exact leads.quote
  | text raw =>
    obtain rfl := Option.some.inj fed
    exact leads.settle (.text raw)
  | atom s =>
    obtain rfl := Option.some.inj fed
    exact leads.settle (.atom (denotes_iff.mpr rfl))

theorem Leads.feedAll {ts us : List Token} {p q : Place} (leads : Leads ts p.1 p.2)
    (fed : feedAll us p = some q) : Leads (ts ++ us) q.1 q.2 := by
  induction us generalizing ts p with
  | nil =>
    obtain rfl := Option.some.inj fed
    simpa using leads
  | cons t us ih =>
    obtain ⟨mid, first, rest⟩ := Option.bind_eq_some_iff.mp fed
    simpa using ih (leads.feed first) rest

/-- The tokens of programs are those that leave nothing open. -/
theorem items_iff {ts : List Token} {done : List Value} :
    Items ts done.reverse ↔ feedAll ts ([], []) = some ([], done) := by
  constructor
  · intro items
    rw [feedAll_items items, settleAll_done]
    simp
  · intro fed
    -- at the end nothing is open, so what led there are complete items
    have start : Leads [] [] [] := .done .nil
    cases start.feedAll (p := ([], [])) fed with
    | done items => exact items

/-- A text is read exactly if no string is left open in it and its tokens are those of a program,
and then as the trees of that program. -/
theorem parse_eq_ok_iff {src : Bytes} {vs : List Value} :
    parse src = .ok vs ↔ (lex src).unclosed = none ∧ Items (lex src).tokens vs := by
  have program : Items (lex src).tokens vs ↔
      feedAll (lex src).tokens ([], []) = some ([], vs.reverse) := by
    rw [← items_iff, List.reverse_reverse]
  have told : parse src = .ok vs ↔
      ((lex src).reading ([], [])).bind Place.finish = .ok vs := by
    rw [← parse_fault, mapError_eq_ok]
  rw [told, program, Lexed.reading]
  cases feedAll (lex src).tokens ([], []) with
  | none => simp [Except.bind]
  | some p =>
    obtain ⟨_ | ⟨_ | _, opened⟩, done⟩ := p <;> cases (lex src).unclosed <;>
      simp [Except.bind, Place.finish, List.reverse_eq_iff]

end ProcLisp.Reader
