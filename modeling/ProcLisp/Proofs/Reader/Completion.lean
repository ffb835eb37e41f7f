import ProcLisp.Proofs.Reader.Tokens

/-!
# Texts that more text completes

A closing parenthesis with nothing to close is the only fault that more text cannot mend. The others
are an open list or string and a quote mark with nothing after it; of these the last one does not
count as incomplete.
-/

namespace ProcLisp.Reader

theorem length_settle (v : Value) (opened : List Opened) (done : List Value) :
    (settle v opened done).1.length ≤ opened.length := by
  fun_induction settle v opened done with
  | case1 => exact Nat.le_refl _
  | case2 v rest done ih => exact Nat.le_succ_of_le ih
  | case3 => exact Nat.le_refl _

theorem lex_openParen (s : Bytes) : lex (openParen :: s) = (lex s).cons .opening := by
  rw [lex]
  rfl

theorem lex_closeParen (s : Bytes) : lex (closeParen :: s) = (lex s).cons .closing := by
  rw [lex]
  rfl

/-- What is open is closed from the inside out; a quote mark is given an empty list. -/
theorem exists_closing (p : Place) : ∃ t vs, ((lex t).reading p).bind Place.finish = .ok vs := by
  obtain ⟨opened, done⟩ := p
  -- on how much is open: a list that is closed may complete quoted items around it as well
  induction len : opened.length using Nat.strongRecOn generalizing opened done with
  | _ n ih =>
    match opened with
    | [] =>
      refine ⟨[], done.reverse, ?_⟩
      rw [lex]
      rfl
    | .list left items :: rest =>
      have shorter := length_settle (.list items.reverse) rest done
      obtain ⟨t, vs, closed⟩ := ih _ (by simp only [List.length_cons] at len; omega)
        (settle (.list items.reverse) rest done).1 (settle (.list items.reverse) rest done).2 rfl
      refine ⟨closeParen :: t, vs, ?_⟩
      rw [lex_closeParen, Lexed.reading_cons]
      exact closed
    | .quote :: rest =>
      have shorter := length_settle (quoted (.list [])) rest done
      obtain ⟨t, vs, closed⟩ := ih _ (by simp only [List.length_cons] at len; omega)
        (settle (quoted (.list [])) rest done).1 (settle (quoted (.list [])) rest done).2 rfl
      refine ⟨openParen :: closeParen :: t, vs, ?_⟩
      rw [lex_openParen, lex_closeParen, Lexed.reading_cons]
      simp only [Token.feed]
      rw [Lexed.reading_cons]
      exact closed

namespace State

/-- Two bytes at most end the token that is being read. -/
theorem exists_between (st : State) : ∃ t left p, st.run t = .ok (held left [] p) := by
  obtain ⟨left, mode, opened, done⟩ := st
  cases mode with
  | between => exact ⟨[], left, (opened, done), rfl⟩
  | comment => exact ⟨[newline], left - 1, (opened, done), rfl⟩
  | atom read => exact ⟨[0x20], left - 1, settle (atomValue read.reverse) opened done, rfl⟩
  | text start read =>
    exact ⟨[Quoted.quoteMark], left - 1, settle (.str read.reverse) opened done, rfl⟩
  | escape start read =>
    exact ⟨[Quoted.quoteMark, Quoted.quoteMark], left - 1 - 1,
      settle (.str (unescape Quoted.quoteMark :: read).reverse) opened done, rfl⟩

theorem run_stuck {st : State} {s : Bytes} {e : Stuck} (stuck : st.run s = .error e) (t : Bytes) :
    st.run (s ++ t) = .error e := by
  induction s generalizing st with
  | nil => cases stuck
  | cons c s ih =>
    rw [List.cons_append, run]
    rw [run] at stuck
    cases stepped : st.step c with
    | error e => simpa [stepped] using stuck
    | ok next =>
      rw [stepped] at stuck
      exact ih stuck

theorem fault_of_take {st : State} {c : UInt8} {e : Stuck} (stuck : st.take c = .error e) :
    e.fault = .strayClose := by
  unfold take between at stuck
  split at stuck <;> grind

theorem fault_of_step {st : State} {c : UInt8} {e : Stuck} (stuck : st.step c = .error e) :
    e.fault = .strayClose := by
  unfold step advance at stuck
  cases taken : (st.settleAt c).take c with
  | ok next => simp [taken, Except.map] at stuck
  | error e' =>
    rw [taken] at stuck
    obtain rfl := Except.error.inj stuck
    exact fault_of_take taken

theorem fault_of_run {st : State} {s : Bytes} {e : Stuck} (stuck : st.run s = .error e) :
    e.fault = .strayClose := by
  induction s generalizing st with
  | nil => cases stuck
  | cons c s ih =>
    rw [run] at stuck
    cases stepped : st.step c with
    | error e' =>
      rw [stepped] at stuck
      obtain rfl := Except.error.inj stuck
      exact fault_of_step stepped
    | ok next =>
      rw [stepped] at stuck
      exact ih stuck

theorem reading_ne_stray {st mid : State} {s : Bytes} (ran : st.run s = .ok mid) :
    st.reading s ≠ .error .strayClose := by
  rw [reading, ran]
  cases mode : mid.flush.mode <;> simp [mode]

/-- Wherever the scanner is, the text may go on to an end. -/
theorem exists_completion (st : State) : ∃ t vs, (st.reading t).bind Place.finish = .ok vs := by
  obtain ⟨t, left, p, between⟩ := st.exists_between
  obtain ⟨u, vs, closed⟩ := exists_closing (Place.unplaced p)
  refine ⟨t ++ u, vs, ?_⟩
  have goesOn : st.reading (t ++ u) = (held left [] p).reading u := by
    unfold reading
    rw [run_append between]
  rw [goesOn, reading_held]
  exact closed

end State

/-- What is wrong with a text, told from its tokens. -/
inductive Faulty (l : Lexed) : Fault → Prop
  | stray (fed : feedAll l.tokens ([], []) = none) : Faulty l .strayClose
  | text {p : Place} {dangling : Bool} (fed : feedAll l.tokens ([], []) = some p)
      (unclosed : l.unclosed = some dangling) : Faulty l (.unclosedString dangling)
  | list {left : Nat} {items done : List Value} {opened : List Opened}
      (fed : feedAll l.tokens ([], []) = some (.list left items :: opened, done))
      (closed : l.unclosed = none) : Faulty l .unclosedList
  | quote {done : List Value} {opened : List Opened}
      (fed : feedAll l.tokens ([], []) = some (.quote :: opened, done))
      (closed : l.unclosed = none) : Faulty l .endOfInput

theorem faulty_of_parse {src : Bytes} {e : ParseError} (failed : parse src = .error e) :
    Faulty (lex src) e.fault := by
  have told := parse_fault src
  rw [failed, Lexed.reading] at told
  cases fed : feedAll (lex src).tokens ([], []) with
  | none =>
    rw [fed] at told
    rw [show e.fault = .strayClose from Except.error.inj told]
    exact .stray fed
  | some p =>
    rw [fed] at told
    cases closed : (lex src).unclosed with
    | some dangling =>
      rw [closed] at told
      rw [show e.fault = .unclosedString dangling from Except.error.inj told]
      exact .text fed closed
    | none =>
      rw [closed] at told
      obtain ⟨_ | ⟨_ | _, opened⟩, done⟩ := p
      · cases told
      · rw [show e.fault = .unclosedList from Except.error.inj told]
        exact .list fed closed
      · rw [show e.fault = .endOfInput from Except.error.inj told]
        exact .quote fed closed

/-- The scanner's count of what is left does not show in what it reads. -/
theorem parse_reading (src : Bytes) (left : Nat) :
    (parse src).mapError ParseError.fault =
      ((State.held left [] ([], [])).reading src).bind Place.finish := by
  rw [parse_fault, reading_held]
  rfl

/-- All faults but one can be mended by more text. -/
theorem completable_iff {src : Bytes} {e : ParseError} (failed : parse src = .error e) :
    (∃ t vs, parse (src ++ t) = .ok vs) ↔ e.fault ≠ .strayClose := by
  cases ran : (State.held src.length [] ([], [])).run src with
  | error stuck =>
    -- the scanner stays where it got stuck, whatever follows
    have stray := State.fault_of_run ran
    have told := parse_reading src src.length
    rw [failed, State.reading, ran] at told
    have fault : e.fault = stuck.fault := Except.error.inj told
    refine iff_of_false ?_ (not_not_intro (fault.trans stray))
    rintro ⟨t, vs, completed⟩
    have later := parse_reading (src ++ t) src.length
    rw [completed, State.reading, State.run_stuck ran] at later
    cases later
  | ok st =>
    refine iff_of_true ?_ ?_
    · obtain ⟨t, vs, completed⟩ := st.exists_completion
      have told := parse_reading (src ++ t) src.length
      rw [State.reading, State.run_append ran] at told
      rw [State.reading] at completed
      rw [completed] at told
      exact ⟨t, vs, mapError_eq_ok.mp told⟩
    · intro stray
      have wrong := faulty_of_parse failed
      rw [stray] at wrong
      cases wrong with
      | stray fed =>
        have same := reading_held src src.length ([], [])
        have none : (lex src).reading (Place.unplaced ([], [])) = .error .strayClose := by
          unfold Lexed.reading
          rw [show Place.unplaced ([], []) = ([], []) from rfl, fed]
        rw [none] at same
        exact State.reading_ne_stray ran same

/-! ### Quote marks at the end -/

theorem settle_ne_quote (v : Value) (opened rest : List Opened) (done : List Value) :
    (settle v opened done).1 ≠ .quote :: rest := by
  fun_induction settle v opened done with
  | case1 => simp
  | case2 v _ done ih => exact ih
  | case3 => simp

theorem feed_quote {t : Token} {p q : Place} (fed : t.feed p = some q) :
    (∃ rest, q.1 = .quote :: rest) ↔ t = .quote := by
  obtain ⟨opened, done⟩ := p
  cases t with
  | opening =>
    obtain rfl := Option.some.inj fed
    simp
  | closing =>
    obtain _ | ⟨_ | _, opened⟩ := opened
    · cases fed
    · obtain rfl := Option.some.inj fed
      simp [settle_ne_quote]
    · cases fed
  | quote =>
    obtain rfl := Option.some.inj fed
    simp
  | text raw | atom s =>
    obtain rfl := Option.some.inj fed
    simp [settle_ne_quote]

/-- A quote mark waits for its item exactly if it is the last token. -/
theorem feedAll_quote {ts : List Token} {p : Place} (fed : feedAll ts ([], []) = some p) :
    (∃ rest, p.1 = .quote :: rest) ↔ ∃ us, ts = us ++ [.quote] := by
  rcases List.eq_nil_or_concat ts with rfl | ⟨us, t, rfl⟩
  · obtain rfl := Option.some.inj fed
    simp
  · rw [List.concat_eq_append, feedAll_append us [t]] at fed
    obtain ⟨q, -, last⟩ := Option.bind_eq_some_iff.mp fed
    rw [feedAll_cons] at last
    obtain ⟨q', took, same⟩ := Option.bind_eq_some_iff.mp last
    obtain rfl := Option.some.inj same
    rw [feed_quote took]
    simp

/-- The last token of the text is a quote mark. -/
def EndsInQuote (src : Bytes) : Prop := ∃ ts, lex src = ⟨ts ++ [.quote], none⟩

theorem endsInQuote_iff {src : Bytes} {p : Place}
    (fed : feedAll (lex src).tokens ([], []) = some p) (closed : (lex src).unclosed = none) :
    EndsInQuote src ↔ ∃ rest, p.1 = .quote :: rest := by
  rw [feedAll_quote fed]
  unfold EndsInQuote
  rw [← closed]
  exact exists_congr fun us => ⟨fun same => by rw [same], fun same => by rw [← same]⟩

/-- A text counts as incomplete exactly if more text can complete it and its last token is no quote
mark. -/
theorem incomplete_iff {src : Bytes} {e : ParseError} (failed : parse src = .error e) :
    e.incomplete ↔ (∃ t vs, parse (src ++ t) = .ok vs) ∧ ¬ EndsInQuote src := by
  have wrong := faulty_of_parse failed
  rw [completable_iff failed, ParseError.incomplete]
  generalize e.fault = fault at wrong
  cases wrong with
  | stray fed => simp
  | text fed unclosed =>
    have other : ¬ EndsInQuote src := by
      rintro ⟨ts, same⟩
      simp [same] at unclosed
    simp [other]
  | list fed closed =>
    have other : ¬ EndsInQuote src := by simp [endsInQuote_iff fed closed]
    simp [other]
  | quote fed closed =>
    have last : EndsInQuote src := by simp [endsInQuote_iff fed closed]
    simp [last]

/-- A quoted list that is open, with a string in it that ends in a backslash. -/
theorem incomplete_iff_open_string :
    let src := ascii "('(a \"b\\"
    let e : ParseError := ⟨5, .unclosedString true⟩
    parse src = .error e ∧
      (e.incomplete ↔ (∃ t vs, parse (src ++ t) = .ok vs) ∧ ¬ EndsInQuote src) := by
  intro src e
  have failed : parse src = .error e := rfl
  exact ⟨failed, incomplete_iff failed⟩

/-- A lone quote mark could be completed, and does not count as incomplete. -/
theorem lone_quote_counts_as_complete :
    ∃ e, parse (ascii "'") = .error e ∧
      ¬ (e.incomplete ↔ ∃ t vs, parse (ascii "'" ++ t) = .ok vs) := by
  refine ⟨⟨1, .endOfInput⟩, rfl, fun claimed => ?_⟩
  have completed : ∃ t vs, parse (ascii "'" ++ t) = .ok vs :=
    ⟨ascii "a", [quoted (.sym (ascii "a"))], rfl⟩
  exact absurd (claimed.mpr completed) (by decide)

end ProcLisp.Reader
