import ProcLisp.Proofs.Reader.Grammar

/-!
# Recursive descent

A reader that calls itself for the items of a list and for what is quoted. It comes to an end on every
text, with an item or with a fault, because what an item is read from gets shorter by at least a byte.
-/

namespace ProcLisp.Reader

/-- Without the white space and comments at the beginning. -/
def skip : Bytes → Bytes
  | [] => []
  | c :: s =>
    if isBlank c then skip s
    else if c = semicolon then skip (s.dropWhile (· ≠ newline))
    else c :: s
termination_by s => s.length
decreasing_by
  all_goals simp only [List.length_cons]
  · omega
  · exact Nat.lt_succ_of_le (List.dropWhile_sublist _).length_le

/-- The bytes that begin anything but an atom. -/
def marks : Bytes := [openParen, closeParen, quoteMark, Quoted.quoteMark]

/-- The bytes up to the next delimiter. -/
def word (s : Bytes) : Bytes := s.takeWhile (!isDelimiter ·)

def afterWord (s : Bytes) : Bytes := s.dropWhile (!isDelimiter ·)

/-! ### What is read -/

mutual

/-- The item at the beginning of a text, and what follows it. -/
inductive Reads : Bytes → Value → Bytes → Prop
  | list {s t rest : Bytes} {vs : List Value} (begins : skip s = openParen :: t)
      (items : ReadsItems t vs rest) : Reads s (.list vs) rest
  | quote {s t rest : Bytes} {v : Value} (begins : skip s = quoteMark :: t)
      (item : Reads t v rest) : Reads s (quoted v) rest
  | text {s t : Bytes} {cut : Bytes × Bytes} (begins : skip s = Quoted.quoteMark :: t)
      (closes : literal t = .ok cut) : Reads s (.str (unescaped cut.1)) cut.2
  | atom {s t : Bytes} {c : UInt8} (begins : skip s = c :: t) (other : c ∉ marks) :
      Reads s (atomValue (word (c :: t))) (afterWord (c :: t))

/-- The items up to a closing parenthesis, and what follows that. -/
inductive ReadsItems : Bytes → List Value → Bytes → Prop
  | nil {s t : Bytes} (closes : skip s = closeParen :: t) : ReadsItems s [] t
  | cons {s mid rest : Bytes} {v : Value} {vs : List Value} (first : Reads s v mid)
      (later : ReadsItems mid vs rest) : ReadsItems s (v :: vs) rest

end

/-- The items up to the end of a text. -/
inductive ReadsAll : Bytes → List Value → Prop
  | nil {s : Bytes} (ends : skip s = []) : ReadsAll s []
  | cons {s mid : Bytes} {v : Value} {vs : List Value} (first : Reads s v mid)
      (later : ReadsAll mid vs) : ReadsAll s (v :: vs)

/-- The items of a list go on. -/
def GoesOn (s : Bytes) : Prop := ∃ c t, skip s = c :: t ∧ c ≠ closeParen

mutual

/-- The fault in the item at the beginning of a text. -/
inductive Fails : Bytes → Stuck → Prop
  | nothing {s : Bytes} (ends : skip s = []) : Fails s ⟨.endOfInput, 0⟩
  | stray {s t : Bytes} (begins : skip s = closeParen :: t) : Fails s ⟨.strayClose, t.length + 1⟩
  | list {s t : Bytes} {e : Stuck} (begins : skip s = openParen :: t)
      (items : FailsItems t (t.length + 1) e) : Fails s e
  | quote {s t : Bytes} {e : Stuck} (begins : skip s = quoteMark :: t) (item : Fails t e) : Fails s e
  | text {s t : Bytes} {dangling : Bool} (begins : skip s = Quoted.quoteMark :: t)
      (opens : literal t = .error dangling) : Fails s ⟨.unclosedString dangling, t.length + 1⟩

/-- The fault in the items of a list that begins where `start` bytes are left. -/
inductive FailsItems : Bytes → Nat → Stuck → Prop
  | unclosed {s : Bytes} {start : Nat} (ends : skip s = []) :
      FailsItems s start ⟨.unclosedList, start⟩
  | item {s : Bytes} {start : Nat} {e : Stuck} (goesOn : GoesOn s) (item : Fails s e) :
      FailsItems s start e
  | later {s mid : Bytes} {v : Value} {start : Nat} {e : Stuck} (first : Reads s v mid)
      (later : FailsItems mid start e) : FailsItems s start e

end

/-- The fault in the items up to the end of a text. -/
inductive FailsAll : Bytes → Stuck → Prop
  | item {s : Bytes} {e : Stuck} (more : skip s ≠ []) (item : Fails s e) : FailsAll s e
  | later {s mid : Bytes} {v : Value} {e : Stuck} (first : Reads s v mid) (later : FailsAll mid e) :
      FailsAll s e

variable {s t rest : Bytes} {c : UInt8} {v : Value} {vs : List Value} {e : Stuck}

theorem not_goesOn_of_end (ends : skip s = []) : ¬ GoesOn s := by
  rintro ⟨c, t, begins, -⟩
  cases begins.symm.trans ends

theorem not_goesOn_of_close (closes : skip s = closeParen :: t) : ¬ GoesOn s := by
  rintro ⟨c, t, begins, other⟩
  exact other (List.cons.inj (begins.symm.trans closes)).1

theorem Reads.goesOn (reads : Reads s v rest) : GoesOn s := by
  cases reads with
  | list begins _ => exact ⟨_, _, begins, by decide⟩
  | quote begins _ => exact ⟨_, _, begins, by decide⟩
  | text begins _ => exact ⟨_, _, begins, by decide⟩
  | atom begins other =>
    refine ⟨_, _, begins, ?_⟩
    rintro rfl
    exact other (by decide)

/-! ### Progress -/

theorem length_skip_le (s : Bytes) : (skip s).length ≤ s.length := by
  fun_induction skip s with
  | case1 => exact Nat.le_refl _
  | case2 c s blank ih => exact Nat.le_succ_of_le ih
  | case3 s notBlank ih =>
    exact Nat.le_succ_of_le (ih.trans (List.dropWhile_sublist _).length_le)
  | case4 => exact Nat.le_refl _

theorem not_blank_of_skip (begins : skip s = c :: t) : isBlank c = false ∧ c ≠ semicolon := by
  fun_induction skip s with
  | case1 => cases begins
  | case2 c s blank ih => exact ih begins
  | case3 s notBlank ih => exact ih begins
  | case4 d s notBlank notComment =>
    obtain ⟨rfl, rfl⟩ := List.cons.inj begins
    exact ⟨by simpa using notBlank, notComment⟩

/-- White space, comments and marks are all that a delimiter can be. -/
theorem inside_of_skip (begins : skip s = c :: t) (other : c ∉ marks) : isDelimiter c = false := by
  obtain ⟨notBlank, notComment⟩ := not_blank_of_skip begins
  simp only [marks, List.mem_cons, List.not_mem_nil, or_false, not_or] at other
  simp [isDelimiter, notBlank, notComment, other]

theorem word_of_skip (begins : skip s = c :: t) (other : c ∉ marks) :
    word (c :: t) = c :: word t ∧ afterWord (c :: t) = afterWord t := by
  simp [word, afterWord, inside_of_skip begins other]

theorem length_of_skip (begins : skip s = c :: t) : t.length < s.length := by
  have shorter := length_skip_le s
  rw [begins] at shorter
  exact shorter

mutual

theorem Reads.shorter {s rest : Bytes} {v : Value} (reads : Reads s v rest) :
    rest.length < s.length := by
  match reads with
  | .list begins items => exact items.shorter.trans (length_of_skip begins)
  | .quote begins item => exact item.shorter.trans (length_of_skip begins)
  | .text begins closes => exact (length_literal closes).trans (length_of_skip begins)
  | .atom begins other =>
    rw [(word_of_skip begins other).2]
    exact Nat.lt_of_le_of_lt (List.dropWhile_sublist _).length_le (length_of_skip begins)

theorem ReadsItems.shorter {s rest : Bytes} {vs : List Value} (items : ReadsItems s vs rest) :
    rest.length < s.length := by
  match items with
  | .nil closes => exact length_of_skip closes
  | .cons first later => exact later.shorter.trans first.shorter

end

mutual

theorem Fails.within {s : Bytes} {e : Stuck} (fails : Fails s e) : e.left ≤ s.length := by
  match fails with
  | .nothing _ => exact Nat.zero_le _
  | .stray begins => exact length_of_skip begins
  | .list begins items =>
    have inside := items.within
    have shorter := length_of_skip begins
    omega
  | .quote begins item => exact item.within.trans (length_of_skip begins).le
  | .text begins _ => exact length_of_skip begins

theorem FailsItems.within {s : Bytes} {start : Nat} {e : Stuck} (fails : FailsItems s start e) :
    e.left ≤ max start s.length := by
  match fails with
  | .unclosed _ => exact Nat.le_max_left _ _
  | .item _ item => exact item.within.trans (Nat.le_max_right _ _)
  | .later first later =>
    have inside := later.within
    have shorter := first.shorter
    omega

end

/-- The reader comes to an end: with an item, or with a fault. The same holds of the items of a list,
and of all items of a text. -/
theorem descent_ends (s : Bytes) :
    ((∃ v rest, Reads s v rest) ∨ ∃ e, Fails s e) ∧
      (∀ start, (∃ vs rest, ReadsItems s vs rest) ∨ ∃ e, FailsItems s start e) ∧
      ((∃ vs, ReadsAll s vs) ∨ ∃ e, FailsAll s e) := by
  -- on the length: every call is for a shorter text, or for an item of the same one
  induction len : s.length using Nat.strongRecOn generalizing s with
  | _ n ih =>
    subst len
    have item : (∃ v rest, Reads s v rest) ∨ ∃ e, Fails s e := by
      cases begins : skip s with
      | nil => exact .inr ⟨_, .nothing begins⟩
      | cons c t =>
        have shorter := length_of_skip begins
        by_cases other : c ∉ marks
        · exact .inl ⟨_, _, .atom begins other⟩
        simp only [marks, List.mem_cons, List.not_mem_nil, or_false, not_not] at other
        rcases other with rfl | rfl | rfl | rfl
        · rcases (ih _ shorter t rfl).2.1 (t.length + 1) with ⟨vs, rest, items⟩ | ⟨e, fails⟩
          · exact .inl ⟨_, _, .list begins items⟩
          · exact .inr ⟨_, .list begins fails⟩
        · exact .inr ⟨_, .stray begins⟩
        · rcases (ih _ shorter t rfl).1 with ⟨v, rest, item⟩ | ⟨e, fails⟩
          · exact .inl ⟨_, _, .quote begins item⟩
          · exact .inr ⟨_, .quote begins fails⟩
        · cases closes : literal t with
          | ok cut => exact .inl ⟨_, _, .text begins closes⟩
          | error dangling => exact .inr ⟨_, .text begins closes⟩
    refine ⟨item, fun start => ?_, ?_⟩
    · cases begins : skip s with
      | nil => exact .inr ⟨_, .unclosed begins⟩
      | cons c t =>
        by_cases closes : c = closeParen
        · exact .inl ⟨_, _, .nil (closes ▸ begins)⟩
        rcases item with ⟨v, rest, first⟩ | ⟨e, fails⟩
        · rcases (ih _ first.shorter rest rfl).2.1 start with ⟨vs, last, later⟩ | ⟨e, fails⟩
          · exact .inl ⟨_, _, .cons first later⟩
          · exact .inr ⟨_, .later first fails⟩
        · exact .inr ⟨_, .item ⟨c, t, begins, closes⟩ fails⟩
    · by_cases ends : skip s = []
      · exact .inl ⟨_, .nil ends⟩
      rcases item with ⟨v, rest, first⟩ | ⟨e, fails⟩
      · rcases (ih _ first.shorter rest rfl).2.2 with ⟨vs, later⟩ | ⟨e, fails⟩
        · exact .inl ⟨_, .cons first later⟩
        · exact .inr ⟨_, .later first fails⟩
      · exact .inr ⟨_, .item ends fails⟩

end ProcLisp.Reader
