import ProcLisp.Proofs.Reader.Concatenation
import ProcLisp.Proofs.Reader.Descent

/-!
# The scanner, item by item

The scanner keeps what is open on a stack, and yet it reads the item that recursive descent reads and
hands it to what is open around it. Where the one is stuck, the other finds the same fault at the same
place.
-/

namespace ProcLisp.Reader

variable {s t rest : Bytes} {c : UInt8} {v : Value} {vs : List Value} {e : Stuck}

theorem settle_fresh (v : Value) (opened : List Opened) :
    (settle v opened []).2 = [] ∨ ∃ w, settle v opened [] = ([], [w]) := by
  induction opened generalizing v with
  | nil => exact .inr ⟨v, rfl⟩
  | cons around rest ih =>
    cases around with
    | list left items => exact .inl rfl
    | quote => exact ih (quoted v)

namespace State

variable {st next : State} {opened : List Opened}

/-- Goes on to the end of the first value, unless there is one already. -/
def resume (st : State) (s : Bytes) : Except Stuck (Value × Bytes) :=
  match st.done with
  | v :: _ => .ok (v, s)
  | [] => st.first s

theorem resume_fresh (fresh : st.done = []) (s : Bytes) : st.resume s = st.first s := by
  unfold resume
  rw [fresh]

theorem first_cons (fresh : (st.settleAt c).done = []) (stepped : st.step c = .ok next) (s : Bytes) :
    st.first (c :: s) = next.resume s := by
  rw [step] at stepped
  cases done : next.done <;> simp only [first, fresh, stepped, resume, done]

theorem settleAt_outside (outside : st.flush = st) (c : UInt8) : st.settleAt c = st := by
  unfold settleAt
  split
  · exact outside
  · rfl

/-- Outside of an atom a byte completes nothing before it is read itself. -/
theorem first_outside (outside : st.flush = st) (none : st.done = [])
    (stepped : st.step c = .ok next) (s : Bytes) : st.first (c :: s) = next.resume s :=
  first_cons (by rw [settleAt_outside outside]; exact none) stepped s

/-- A byte between tokens, before the first value is complete. -/
theorem first_between {left : Nat} (stepped : (held left [] (opened, [])).step c = .ok next)
    (s : Bytes) : (held left [] (opened, [])).first (c :: s) = next.resume s :=
  first_outside rfl rfl stepped s

theorem first_comment (opened : List Opened) (s : Bytes) :
    first ⟨s.length, .comment, opened, []⟩ s =
      (held (s.dropWhile (· ≠ newline)).length [] (opened, [])).first
        (s.dropWhile (· ≠ newline)) := by
  induction s with
  | nil => rfl
  | cons c s ih =>
    by_cases last : c = newline
    · subst last
      have blank : (held (s.length + 1) [] (opened, [])).step newline =
          .ok (held s.length [] (opened, [])) := rfl
      have ends : step ⟨(newline :: s).length, .comment, opened, []⟩ newline =
          .ok (held s.length [] (opened, [])) := rfl
      rw [first_outside rfl rfl ends]
      exact (first_between blank s).symm
    · have goesOn : step ⟨(c :: s).length, .comment, opened, []⟩ c =
          .ok ⟨s.length, .comment, opened, []⟩ := by
        simp [step, settleAt, flush, advance, take, last, Except.map]
      rw [first_outside rfl rfl goesOn]
      simpa [resume, last] using ih

theorem first_skip (opened : List Opened) (s : Bytes) :
    (held s.length [] (opened, [])).first s =
      (held (skip s).length [] (opened, [])).first (skip s) := by
  fun_induction skip s with
  | case1 => rfl
  | case2 c s blank ih =>
    have stepped : (held (s.length + 1) [] (opened, [])).step c =
        .ok (held s.length [] (opened, [])) := by
      simp [step, settleAt, isDelimiter, blank, flush, advance, take, between, held, Mode.pending,
        Except.map]
    rw [← ih]
    exact first_between stepped s
  | case3 s notBlank ih =>
    have stepped : (held (s.length + 1) [] (opened, [])).step semicolon =
        .ok ⟨s.length, .comment, opened, []⟩ := rfl
    rw [← ih]
    exact (first_between stepped s).trans (first_comment opened s)
  | case4 => rfl

theorem first_literal (start : Nat) (read : Bytes) (opened : List Opened) (s : Bytes) :
    match literal s with
    | .error dangling =>
      first ⟨s.length, .text start read, opened, []⟩ s = .error ⟨.unclosedString dangling, start⟩
    | .ok cut => first ⟨s.length, .text start read, opened, []⟩ s =
        (held cut.2.length [] (settle (.str (read.reverse ++ unescaped cut.1)) opened [])).resume
          cut.2 := by
  fun_induction literal s generalizing read with
  | case1 => rfl
  | case2 s =>
    have closes : step ⟨s.length + 1, .text start read, opened, []⟩ Quoted.quoteMark =
        .ok (held s.length [] (settle (.str (read.reverse ++ [])) opened [])) := by
      rw [List.append_nil]
      rfl
    exact first_outside rfl rfl closes s
  | case3 => rfl
  | case4 d s _ ih =>
    have marks : step ⟨s.length + 2, .text start read, opened, []⟩ Quoted.backslash =
        .ok ⟨s.length + 1, .escape start read, opened, []⟩ := rfl
    have reads : step ⟨s.length + 1, .escape start read, opened, []⟩ d =
        .ok ⟨s.length, .text start (unescape d :: read), opened, []⟩ := by
      simp [step, settleAt, flush, advance, take, Except.map]
    have both : first ⟨s.length + 2, .text start read, opened, []⟩ (Quoted.backslash :: d :: s) =
        first ⟨s.length, .text start (unescape d :: read), opened, []⟩ s :=
      (first_outside rfl rfl marks (d :: s)).trans (first_outside rfl rfl reads s)
    have later := ih (unescape d :: read)
    cases ends : literal s with
    | error dangling =>
      rw [ends] at later
      exact both.trans later
    | ok cut =>
      rw [ends] at later
      refine both.trans (later.trans ?_)
      simp [unescaped_marked]
  | case5 c s notQuote notBackslash ih =>
    have plain : step ⟨s.length + 1, .text start read, opened, []⟩ c =
        .ok ⟨s.length, .text start (c :: read), opened, []⟩ := by
      simp [step, settleAt, flush, advance, take, notQuote, notBackslash, Except.map]
    have goesOn : first ⟨s.length + 1, .text start read, opened, []⟩ (c :: s) =
        first ⟨s.length, .text start (c :: read), opened, []⟩ s := first_outside rfl rfl plain s
    have later := ih (c :: read)
    cases ends : literal s with
    | error dangling =>
      rw [ends] at later
      exact goesOn.trans later
    | ok cut =>
      rw [ends] at later
      refine goesOn.trans (later.trans ?_)
      simp [unescaped_plain notBackslash]

/-- The first value ends before a delimiter, or with the text. -/
theorem first_atom {read : Bytes} (filled : read ≠ []) (opened : List Opened) (s : Bytes) :
    (held s.length read (opened, [])).first s =
      (held (afterWord s).length [] (settle (atomValue (read ++ word s)) opened [])).resume
        (afterWord s) := by
  have settled {read : Bytes} (filled : read ≠ []) (left : Nat) :
      (held left read (opened, [])).flush =
        held left [] (settle (atomValue read) opened []) := by
    rw [flush_held]
    cases read with
    | nil => exact absurd rfl filled
    | cons => rfl
  induction s generalizing read with
  | nil =>
    have finished : (held 0 read (opened, [])).finish =
        (held 0 [] (settle (atomValue read) opened [])).finish := by
      rw [finish, settled filled]
      rfl
    show (held 0 read (opened, [])).first [] =
      (held 0 [] (settle (atomValue (read ++ [])) opened [])).resume []
    rw [first, finished, List.append_nil]
    rcases settle_fresh (atomValue read) opened with fresh | ⟨w, whole⟩
    · rw [resume_fresh fresh]
      rfl
    · rw [whole]
      rfl
  | cons c s ih =>
    cases inside : isDelimiter c with
    | false =>
      have fresh : ((held (s.length + 1) read (opened, [])).settleAt c).done = [] := by
        simp [settleAt, inside, held]
      have goesOn : (held (s.length + 1) read (opened, [])).first (c :: s) =
          (held s.length (read ++ [c]) (opened, [])).first s :=
        first_cons fresh (step_held inside (s.length + 1) read (opened, [])) s
      refine goesOn.trans ((ih (by simp)).trans ?_)
      simp [word, afterWord, inside]
    | true =>
      have same : (held (s.length + 1) read (opened, [])).first (c :: s) =
          (held (s.length + 1) [] (settle (atomValue read) opened [])).resume (c :: s) := by
        rw [first, settleAt, if_pos inside, settled filled]
        rcases settle_fresh (atomValue read) opened with fresh | ⟨w, whole⟩
        · rw [resume_fresh fresh, first, settleAt_outside rfl]
        · rw [whole]
          rfl
      refine same.trans ?_
      simp [word, afterWord, inside]

theorem first_list (begins : skip s = openParen :: t) (opened : List Opened) :
    (held s.length [] (opened, [])).first s =
      (held t.length [] (.list (t.length + 1) [] :: opened, [])).first t := by
  have opens : (held (t.length + 1) [] (opened, [])).step openParen =
      .ok (held t.length [] (.list (t.length + 1) [] :: opened, [])) := rfl
  rw [first_skip, begins]
  exact first_between opens t

theorem first_quote (begins : skip s = quoteMark :: t) (opened : List Opened) :
    (held s.length [] (opened, [])).first s = (held t.length [] (.quote :: opened, [])).first t := by
  have opens : (held (t.length + 1) [] (opened, [])).step quoteMark =
      .ok (held t.length [] (.quote :: opened, [])) := rfl
  rw [first_skip, begins]
  exact first_between opens t

theorem first_text (begins : skip s = Quoted.quoteMark :: t) (opened : List Opened) :
    match literal t with
    | .error dangling => (held s.length [] (opened, [])).first s =
        .error ⟨.unclosedString dangling, t.length + 1⟩
    | .ok cut => (held s.length [] (opened, [])).first s =
        (held cut.2.length [] (settle (.str (unescaped cut.1)) opened [])).resume cut.2 := by
  have opens : (held (t.length + 1) [] (opened, [])).step Quoted.quoteMark =
      .ok ⟨t.length, .text (t.length + 1) [], opened, []⟩ := rfl
  rw [first_skip, begins, List.length_cons, first_between opens t]
  exact first_literal (t.length + 1) [] opened t

mutual

/-- An item is handed to what is open around it. -/
theorem first_of_reads {s rest : Bytes} {v : Value} (reads : Reads s v rest) (opened : List Opened) :
    (held s.length [] (opened, [])).first s =
      (held rest.length [] (settle v opened [])).resume rest := by
  match reads with
  | @Reads.list _ t _ _ begins items =>
    rw [first_list begins]
    exact first_of_items items (t.length + 1) [] opened
  | .quote begins item =>
    rw [first_quote begins]
    exact first_of_reads item (.quote :: opened)
  | .text begins closes =>
    have ends := first_text begins opened
    rwa [closes] at ends
  | @Reads.atom _ t c begins other =>
    have stepped := step_held (inside_of_skip begins other) (t.length + 1) [] (opened, [])
    have later := first_atom (List.cons_ne_nil c []) opened t
    rw [first_skip, begins, (word_of_skip begins other).1, (word_of_skip begins other).2]
    exact (first_between stepped t).trans later

theorem first_of_items {s rest : Bytes} {vs : List Value} (reads : ReadsItems s vs rest)
    (start : Nat) (items : List Value) (opened : List Opened) :
    (held s.length [] (.list start items :: opened, [])).first s =
      (held rest.length [] (settle (.list (items.reverse ++ vs)) opened [])).resume rest := by
  match reads with
  | @ReadsItems.nil _ t closes =>
    have stepped : (held (t.length + 1) [] (.list start items :: opened, [])).step closeParen =
        .ok (held t.length [] (settle (.list items.reverse) opened [])) := rfl
    rw [first_skip, closes, List.append_nil]
    exact first_between stepped t
  | @ReadsItems.cons _ mid _ v vs first later =>
    have items' := first_of_items later start (v :: items) opened
    rw [List.reverse_cons, List.append_assoc] at items'
    exact (first_of_reads first (.list start items :: opened)).trans items'

end

/-- The innermost thing that is open is not a list, or the text goes on with an item. -/
def Ready (opened : List Opened) (s : Bytes) : Prop :=
  (∀ left items rest, opened ≠ .list left items :: rest) ∨ GoesOn s

mutual

theorem first_of_fails {s : Bytes} {e : Stuck} (fails : Fails s e) {opened : List Opened}
    (ready : Ready opened s) : (held s.length [] (opened, [])).first s = .error e := by
  match fails with
  | .nothing ends =>
    have top := ready.resolve_right (not_goesOn_of_end ends)
    rw [first_skip, ends]
    obtain _ | ⟨_ | _, rest⟩ := opened
    · rfl
    · exact absurd rfl (top _ _ _)
    · rfl
  | .stray begins =>
    have top := ready.resolve_right (not_goesOn_of_close begins)
    rw [first_skip, begins]
    obtain _ | ⟨_ | _, rest⟩ := opened
    · rfl
    · exact absurd rfl (top _ _ _)
    · rfl
  | .list begins items =>
    rw [first_list begins]
    exact first_of_failing items [] opened
  | .quote begins item =>
    rw [first_quote begins]
    exact first_of_fails item (.inl nofun)
  | .text begins opens =>
    have ends := first_text begins opened
    rwa [opens] at ends

theorem first_of_failing {s : Bytes} {start : Nat} {e : Stuck} (fails : FailsItems s start e)
    (items : List Value) (opened : List Opened) :
    (held s.length [] (.list start items :: opened, [])).first s = .error e := by
  match fails with
  | .unclosed ends =>
    rw [first_skip, ends]
    rfl
  | .item goesOn item => exact first_of_fails item (.inr goesOn)
  | @FailsItems.later _ _ v _ _ first later =>
    exact (first_of_reads first (.list start items :: opened)).trans
      (first_of_failing later (v :: items) opened)

end

/-! ### From one item to the next -/

/-- No value is complete, or just the first one is. -/
def Fresh (st : State) (left : Nat) : Prop := st.done = [] ∨ ∃ v, st = held left [] ([], [v])

theorem give_fresh (none : st.done = []) (v : Value) : (st.give v).Fresh st.left := by
  unfold give
  rw [none]
  rcases settle_fresh v st.opened with within | ⟨w, whole⟩
  · exact .inl within
  · exact .inr ⟨w, by rw [whole]; rfl⟩

theorem flush_fresh (none : st.done = []) : st.flush.Fresh st.left := by
  unfold flush
  split
  · exact give_fresh none _
  · exact .inl none

theorem settleAt_fresh (none : st.done = []) (c : UInt8) : (st.settleAt c).Fresh st.left := by
  unfold settleAt
  split
  · exact flush_fresh none
  · exact .inl none

theorem between_fresh (none : st.done = []) (taken : st.between c = .ok next) :
    next.Fresh st.left := by
  unfold between at taken
  split at taken
  · exact .inl (Except.ok.inj taken ▸ none)
  split at taken
  · exact .inl (Except.ok.inj taken ▸ none)
  split at taken
  · exact .inl (Except.ok.inj taken ▸ none)
  split at taken
  · split at taken
    · rename_i items around _
      exact Except.ok.inj taken ▸ @give_fresh ⟨st.left, st.mode, around, st.done⟩ none _
    · cases taken
  split at taken
  · exact .inl (Except.ok.inj taken ▸ none)
  split at taken
  · exact .inl (Except.ok.inj taken ▸ none)
  · exact .inl (Except.ok.inj taken ▸ none)

theorem take_fresh (none : st.done = []) (taken : st.take c = .ok next) : next.Fresh st.left := by
  unfold take at taken
  split at taken
  · exact between_fresh none taken
  · obtain rfl := Except.ok.inj taken
    refine .inl ?_
    split <;> exact none
  · exact .inl (Except.ok.inj taken ▸ none)
  · split at taken
    · exact .inl (Except.ok.inj taken ▸ none)
    split at taken
    · exact Except.ok.inj taken ▸ give_fresh none _
    · exact .inl (Except.ok.inj taken ▸ none)
  · exact .inl (Except.ok.inj taken ▸ none)

theorem advance_fresh (none : st.done = []) (advanced : st.advance c = .ok next) :
    next.Fresh (st.left - 1) := by
  obtain ⟨mid, taken, rfl⟩ := exists_of_map_ok advanced
  rcases take_fresh none taken with none | ⟨v, rfl⟩
  · exact .inl none
  · exact .inr ⟨v, rfl⟩

/-- What a text that goes on from `st` is read as, newest first. -/
def readAll (st : State) (s : Bytes) : Except Stuck (List Value) := (st.run s).bind State.finish

theorem readAll_cons (st : State) (c : UInt8) (s : Bytes) :
    st.readAll (c :: s) = (st.step c).bind (·.readAll s) := by
  unfold readAll
  rw [run]
  cases st.step c <;> rfl

/-- After the first value the scanner goes on between tokens; where there is none, the text is
faulty, or it has nothing in it. -/
theorem readAll_of_first (fresh : st.done = []) (all : st.left = s.length) :
    match st.first s with
    | .ok (v, after) => st.readAll s = (held after.length [] ([], [v])).readAll after
    | .error e => st.readAll s = .error e ∨ st.readAll s = .ok [] := by
  induction s generalizing st with
  | nil =>
    rw [first]
    cases finished : st.finish with
    | error e => exact .inl finished
    | ok done =>
      have values := (finish_eq_ok finished).2.2
      have same : st.readAll [] = .ok done := finished
      rcases flush_fresh fresh with none | ⟨w, whole⟩
      · obtain rfl : [] = done := none.symm.trans values
        exact .inr same
      · obtain rfl : [w] = done := (congrArg State.done whole).symm.trans values
        exact same
  | cons c s ih =>
    rw [readAll_cons, step, first]
    rcases settleAt_fresh fresh c with none | ⟨w, whole⟩
    · rw [none]
      cases advanced : (st.settleAt c).advance c with
      | error e => exact .inl rfl
      | ok next =>
        have left : next.left = s.length := by
          have stepped : st.step c = .ok next := advanced
          rw [left_step stepped, all]
          rfl
        have left' : (st.settleAt c).left - 1 = s.length := by
          rw [left_settleAt, all]
          rfl
        rcases advance_fresh none advanced with none | ⟨w, whole⟩
        · have later := ih none left
          simp only [none]
          exact later
        · rw [left'] at whole
          subst whole
          rfl
    · rw [whole, all]
      show (advance (held (s.length + 1) [] ([], [w])) c).bind (·.readAll s) =
        (held (s.length + 1) [] ([], [w])).readAll (c :: s)
      rw [readAll_cons, step]
      congr 1
      unfold settleAt
      split <;> rfl

theorem readAll_before (before : List Value) (s : Bytes) :
    Concur (Stuck.Amid s.length 0) (fun vs ws => ws = vs ++ before) ((start s).readAll s)
      ((held s.length [] ([], before)).readAll s) := by
  have amid : Amid s.length 0 before (start s) (held s.length [] ([], before)) :=
    ⟨Nat.le_refl _, rfl, .between, .nil, rfl⟩
  exact amid.read (Nat.le_refl _)

theorem readAll_of_reads (reads : Reads s v rest) :
    (start s).readAll s = (held rest.length [] ([], [v])).readAll rest := by
  have found : (start s).first s = .ok (v, rest) := first_of_reads reads []
  have same := readAll_of_first (rfl : (start s).done = []) rfl
  rwa [found] at same

end State

theorem parse_eq_readAll (src : Bytes) :
    parse src = (((State.start src).readAll src).map List.reverse).mapError (·.place 0 src.length) :=
  parse_eq src

theorem lex_skip (s : Bytes) : lex (skip s) = lex s := by
  fun_induction skip s with
  | case1 => rfl
  | case2 c s blank ih => rw [ih, lex, if_pos blank]
  | case3 s notBlank ih => rw [ih, lex, if_neg notBlank, if_pos rfl]
  | case4 => rfl

theorem lex_of_skip (begins : skip s = c :: t) : lex s ≠ {} := by
  obtain ⟨notBlank, notComment⟩ := not_blank_of_skip begins
  have filled (token : Token) (l : Lexed) : l.cons token ≠ {} := fun none =>
    List.cons_ne_nil _ _ (congrArg Lexed.tokens none)
  rw [← lex_skip, begins, lex, if_neg (by simp [notBlank]), if_neg notComment]
  split
  · exact filled _ _
  split
  · exact filled _ _
  split
  · exact filled _ _
  split
  · split
    · exact fun none => Option.some_ne_none _ (congrArg Lexed.unclosed none)
    · exact filled _ _
  · exact filled _ _

theorem parse_eq_nil_iff : parse s = .ok [] ↔ skip s = [] := by
  rw [parse_eq_ok_iff]
  constructor
  · rintro ⟨closed, items⟩
    cases begins : skip s with
    | nil => rfl
    | cons c t =>
      refine absurd ?_ (lex_of_skip begins)
      generalize lex s = lexed at closed items ⊢
      obtain ⟨tokens, unclosed⟩ := lexed
      cases items
      exact congrArg (Lexed.mk []) closed
  · intro ends
    rw [← lex_skip, ends, lex]
    exact ⟨rfl, .nil⟩

/-! ### The scanner is the descent -/

/-- The scanner reads the item that the descent reads, and finds the same fault. -/
theorem next_of_reads {src : Bytes} {p : Nat} (inside : p ≤ src.length)
    (reads : Reads (src.drop p) v rest) : next src p = .ok (v, src.length - rest.length) := by
  have found : (State.start (src.drop p)).first (src.drop p) = .ok (v, rest) :=
    State.first_of_reads reads []
  have shorter := reads.shorter
  rw [List.length_drop] at shorter
  unfold next
  simp only [found, List.length_drop, Except.ok.injEq, Prod.mk.injEq, true_and]
  omega

theorem first_of_fails (fails : Fails s e) : (State.start s).first s = .error e :=
  State.first_of_fails fails (.inl nofun)

theorem next_of_fails {src : Bytes} {p : Nat} (inside : p ≤ src.length)
    (fails : Fails (src.drop p) e) : next src p = .error ⟨src.length - e.left, e.fault⟩ := by
  have within := fails.within
  rw [List.length_drop] at within
  unfold next
  simp only [first_of_fails fails, Stuck.place, List.length_drop, Except.error.injEq,
    ParseError.mk.injEq, and_true]
  omega

/-- A text is read as its first item and what follows that. -/
theorem parse_of_reads (reads : Reads s v rest) :
    parse s = match parse rest with
      | .ok vs => .ok (v :: vs)
      | .error e => .error { e with position := e.position + (s.length - rest.length) } := by
  have shorter := reads.shorter
  have both := State.readAll_before [v] rest
  rw [parse_eq_readAll s, State.readAll_of_reads reads, parse_eq_readAll rest]
  generalize (State.start rest).readAll rest = x,
    (State.held rest.length [] ([], [v])).readAll rest = y at both
  cases both with
  | ok values => simp [Except.map, Except.mapError, values]
  | error stuck =>
    obtain ⟨inside, left, fault⟩ := stuck
    simp only [Except.map, Except.mapError, Stuck.place, fault, left, Except.error.injEq,
      ParseError.mk.injEq, and_true]
    omega

theorem parse_of_all (reads : ReadsAll s vs) : parse s = .ok vs := by
  induction reads with
  | nil ends => exact parse_eq_nil_iff.mpr ends
  | cons first later ih => rw [parse_of_reads first, ih]

theorem parse_of_faulty (fails : FailsAll s e) :
    e.left ≤ s.length ∧ parse s = .error ⟨s.length - e.left, e.fault⟩ := by
  induction fails with
  | @item s e more item =>
    refine ⟨item.within, ?_⟩
    have found := State.readAll_of_first (rfl : (State.start s).done = []) rfl
    rw [first_of_fails item] at found
    rw [parse_eq_readAll]
    rcases found with faulty | empty
    · simp [faulty, Except.map, Except.mapError, Stuck.place]
    · refine absurd (parse_eq_nil_iff.mp ?_) more
      rw [parse_eq_readAll, empty]
      rfl
  | @later s mid v e first later ih =>
    obtain ⟨within, faulty⟩ := ih
    have shorter := first.shorter
    refine ⟨within.trans shorter.le, ?_⟩
    rw [parse_of_reads first, faulty]
    simp only [Except.error.injEq, ParseError.mk.injEq, and_true]
    omega

end ProcLisp.Reader
