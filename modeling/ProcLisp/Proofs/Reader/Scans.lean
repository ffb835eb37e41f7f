import ProcLisp.Proofs.Reader.Strings
import ProcLisp.Reader.Parse

/-!
# What a piece of text leaves behind

Between tokens, a piece of text hands complete values to whatever is open and may end in the bytes
of an atom that more text can still make longer. `Scans` says which, and the lemmas put the pieces
of a text together: bytes that prolong an atom, a blank, a list, a quoted string.
-/

namespace ProcLisp.Reader

/-- Complete values, and the bytes of an atom that may go on. -/
structure Reading where
  values : List Value
  rest : Bytes

/-- The value of an atom's bytes; no bytes are no atom. -/
def atoms : Bytes → List Value
  | [] => []
  | c :: s => [atomValue (c :: s)]

namespace Reading

/-- All values, if the atom ends here. -/
def all (r : Reading) : List Value := r.values ++ atoms r.rest

/-- Bytes that prolong the atom. -/
def glue (r : Reading) (s : Bytes) : Reading := ⟨r.values, r.rest ++ s⟩

/-- Another reading after a blank. -/
def next (r s : Reading) : Reading := ⟨r.all ++ s.values, s.rest⟩

theorem all_glue (r : Reading) (s : Bytes) : (r.glue s).all = r.values ++ atoms (r.rest ++ s) := rfl

@[simp] theorem all_next (r s : Reading) : (r.next s).all = r.all ++ s.all := by
  simp [next, all]

end Reading

def Mode.pending : Bytes → Mode
  | [] => .between
  | c :: s => .atom (c :: s).reverse

/-- Hands over several values, one after the other. -/
def settleAll (vs : List Value) (place : List Opened × List Value) : List Opened × List Value :=
  vs.foldl (fun place v => settle v place.1 place.2) place

@[simp] theorem settleAll_nil (place : List Opened × List Value) : settleAll [] place = place := rfl

theorem settleAll_append (vs ws : List Value) (place : List Opened × List Value) :
    settleAll (vs ++ ws) place = settleAll ws (settleAll vs place) := List.foldl_append

theorem settleAll_list (vs items : List Value) (left : Nat) (opened : List Opened)
    (done : List Value) :
    settleAll vs (.list left items :: opened, done) =
      (.list left (vs.reverse ++ items) :: opened, done) := by
  induction vs generalizing items with
  | nil => rfl
  | cons v vs ih =>
    have first : settleAll (v :: vs) (.list left items :: opened, done) =
        settleAll vs (.list left (v :: items) :: opened, done) := rfl
    rw [first, ih]
    simp

theorem settleAll_done (vs done : List Value) :
    settleAll vs ([], done) = ([], vs.reverse ++ done) := by
  induction vs generalizing done with
  | nil => rfl
  | cons v vs ih =>
    have first : settleAll (v :: vs) ([], done) = settleAll vs ([], v :: done) := rfl
    rw [first, ih]
    simp

namespace State

/-- A state between tokens, or in an atom with the bytes `rest` so far. -/
def held (left : Nat) (rest : Bytes) (place : List Opened × List Value) : State :=
  ⟨left, .pending rest, place.1, place.2⟩

theorem run_append {st mid : State} {s : Bytes} (first : st.run s = .ok mid) (t : Bytes) :
    st.run (s ++ t) = mid.run t := by
  induction s generalizing st with
  | nil =>
    obtain rfl := Except.ok.inj first
    rfl
  | cons c s ih =>
    simp only [List.cons_append, run] at first ⊢
    cases stepped : st.step c with
    | error e => simp [stepped] at first
    | ok next =>
      rw [stepped] at first
      exact ih first

theorem run_cons {st next : State} {c : UInt8} (stepped : st.step c = .ok next) (t : Bytes) :
    st.run (c :: t) = next.run t := by
  rw [run, stepped]

/-- A byte that ends no atom begins one or prolongs it. -/
theorem step_held {c : UInt8} (inside : isDelimiter c = false) (left : Nat) (rest : Bytes)
    (place : List Opened × List Value) :
    (held left rest place).step c = .ok (held (left - 1) (rest ++ [c]) place) := by
  have others : c ≠ openParen ∧ c ≠ closeParen ∧ c ≠ Quoted.quoteMark ∧ c ≠ semicolon ∧
      c ≠ quoteMark ∧ isBlank c = false := by
    simpa [isDelimiter, and_assoc] using inside
  obtain ⟨notOpen, notClose, notString, notComment, notQuote, notBlank⟩ := others
  cases rest with
  | nil =>
    simp [step, settleAt, inside, advance, held, Mode.pending, take, between, notBlank, notComment,
      notOpen, notClose, notQuote, notString, Except.map]
  | cons d rest =>
    simp [step, settleAt, inside, advance, held, Mode.pending, take, Except.map]

theorem flush_held (left : Nat) (rest : Bytes) (place : List Opened × List Value) :
    (held left rest place).flush = held left [] (settleAll (atoms rest) place) := by
  cases rest with
  | nil => rfl
  | cons c rest => simp [held, Mode.pending, flush, give, atoms, settleAll]

/-- A delimiter completes the atom before it. -/
theorem step_delimiter {c : UInt8} (delimiter : isDelimiter c) (left : Nat) (rest : Bytes)
    (place : List Opened × List Value) :
    (held left rest place).step c = (held left [] (settleAll (atoms rest) place)).advance c := by
  rw [step, settleAt, if_pos delimiter, flush_held]

end State

/-- Read between tokens, `text` leaves `r` behind. -/
def Scans (text : Bytes) (r : Reading) : Prop :=
  ∀ left place, (State.held left [] place).run text =
    .ok (State.held (left - text.length) r.rest (settleAll r.values place))

namespace Scans

variable {text : Bytes} {r : Reading}

theorem nil : Scans [] ⟨[], []⟩ := fun _ _ => rfl

theorem glue_one (scans : Scans text r) {c : UInt8} (inside : isDelimiter c = false) :
    Scans (text ++ [c]) (r.glue [c]) := by
  intro left place
  rw [State.run_append (scans left place),
    State.run_cons (State.step_held inside (left - text.length) r.rest (settleAll r.values place))]
  simp [State.run, Reading.glue, Nat.sub_sub]

theorem glue (scans : Scans text r) {s : Bytes} (inside : ∀ c ∈ s, isDelimiter c = false) :
    Scans (text ++ s) (r.glue s) := by
  induction s generalizing text r with
  | nil => simpa [Reading.glue] using scans
  | cons c s ih =>
    have first := scans.glue_one (inside c (by simp))
    simpa [Reading.glue] using ih first fun c member => inside c (by simp [member])

theorem token {s : Bytes} (inside : ∀ c ∈ s, isDelimiter c = false) : Scans s ⟨[], s⟩ :=
  nil.glue inside

theorem append (scans : Scans text r) (settled : r.rest = []) {more : Bytes} {s : Reading}
    (later : Scans more s) : Scans (text ++ more) ⟨r.values ++ s.values, s.rest⟩ := by
  intro left place
  rw [State.run_append (scans left place), settled, later, settleAll_append, List.length_append,
    Nat.sub_sub]

theorem blank (scans : Scans text r) : Scans (text ++ [0x20]) ⟨r.all, []⟩ := by
  intro left place
  have stepped := State.step_delimiter (c := 0x20) (by decide) (left - text.length) r.rest
    (settleAll r.values place)
  rw [← settleAll_append] at stepped
  rw [State.run_append (scans left place), State.run_cons stepped]
  simp [State.run, Nat.sub_sub, Reading.all, State.held, Mode.pending]

theorem next (scans : Scans text r) {more : Bytes} {s : Reading} (later : Scans more s) :
    Scans (text ++ 0x20 :: more) (r.next s) := by
  simpa [Reading.next] using scans.blank.append rfl later

theorem list (scans : Scans text r) : Scans (0x28 :: (text ++ [0x29])) ⟨[.list r.all], []⟩ := by
  rintro left ⟨opened, done⟩
  have body := scans (left - 1) (.list left [] :: opened, done)
  have opens : (State.held left [] (opened, done)).step 0x28 =
      .ok (State.held (left - 1) [] (.list left [] :: opened, done)) := rfl
  have closes : (State.held (left - 1 - text.length) r.rest
        (settleAll r.values (.list left [] :: opened, done))).step 0x29 =
      .ok (State.held (left - 1 - text.length - 1) [] (settleAll [.list r.all] (opened, done))) := by
    rw [State.step_delimiter (by decide), ← settleAll_append, settleAll_list]
    simp [State.advance, State.take, State.between, State.held, Mode.pending, State.give, settleAll,
      isBlank, semicolon, openParen, closeParen, Except.map, Reading.all]
  rw [State.run_cons opens, State.run_append body, State.run_cons closes]
  simp [State.run, Nat.sub_sub, Nat.add_comm, Nat.add_left_comm]

end Scans

/-! ### Strings -/

namespace State

variable {left start : Nat} {read : Bytes} {opened : List Opened} {done : List Value}

theorem run_clean {s : Bytes} (clean : ∀ b ∈ s, b ≠ Quoted.quoteMark ∧ b ≠ Quoted.backslash) :
    run ⟨left, .text start read, opened, done⟩ s =
      .ok ⟨left - s.length, .text start (s.reverse ++ read), opened, done⟩ := by
  induction s generalizing left read with
  | nil => rfl
  | cons c s ih =>
    obtain ⟨notQuote, notBackslash⟩ := clean c (by simp)
    have stepped : step ⟨left, .text start read, opened, done⟩ c =
        .ok ⟨left - 1, .text start (c :: read), opened, done⟩ := by
      simp [step, settleAt, flush, advance, take, notQuote, notBackslash, Except.map]
    rw [run_cons stepped, ih fun b member => clean b (by simp [member])]
    simp [Nat.sub_sub, Nat.add_comm]

theorem run_marked (c : UInt8) (s : Bytes) :
    run ⟨left, .text start read, opened, done⟩ (Quoted.backslash :: c :: s) =
      run ⟨left - 1 - 1, .text start (unescape c :: read), opened, done⟩ s := by
  have marks : step ⟨left, .text start read, opened, done⟩ Quoted.backslash =
      .ok ⟨left - 1, .escape start read, opened, done⟩ := rfl
  have reads : step ⟨left - 1, .escape start read, opened, done⟩ c =
      .ok ⟨left - 1 - 1, .text start (unescape c :: read), opened, done⟩ := by
    simp [step, settleAt, flush, advance, take, Except.map]
  rw [run_cons marks, run_cons reads]

theorem run_escape {p : Utf8.Piece} (formed : p.Formed) :
    run ⟨left, .text start read, opened, done⟩ (Quoted.escape p) =
      .ok ⟨left - (Quoted.escape p).length, .text start ((Quoted.spelled p).reverse ++ read),
        opened, done⟩ := by
  cases Quoted.escape_unescapes formed with
  | bare escaped clean => rw [escaped, run_clean clean]
  | marked c rest escaped spelled clean =>
    rw [escaped, spelled, run_marked, run_clean clean]
    have lengths : left - 1 - 1 - rest.length =
        left - (Quoted.backslash :: c :: rest).length := by simp; omega
    simp [lengths]

theorem run_escapes {ps : List Utf8.Piece} (formed : ∀ p ∈ ps, p.Formed) :
    run ⟨left, .text start read, opened, done⟩ (ps.flatMap Quoted.escape) =
      .ok ⟨left - (ps.flatMap Quoted.escape).length,
        .text start ((ps.flatMap Quoted.spelled).reverse ++ read), opened, done⟩ := by
  induction ps generalizing left read with
  | nil => rfl
  | cons p ps ih =>
    rw [List.flatMap_cons, run_append (run_escape (formed p (by simp))),
      ih fun p member => formed p (by simp [member])]
    simp [Nat.sub_sub]

end State

theorem Scans.quote (s : Bytes) : Scans (Quoted.quote s) ⟨[.str (Quoted.respell s)], []⟩ := by
  rintro left ⟨opened, done⟩
  have opens : (State.held left [] (opened, done)).step Quoted.quoteMark =
      .ok ⟨left - 1, .text left [], opened, done⟩ := rfl
  have body : State.run ⟨left - 1, .text left [], opened, done⟩
        ((Utf8.pieces s).flatMap Quoted.escape) =
      .ok ⟨left - 1 - ((Utf8.pieces s).flatMap Quoted.escape).length,
        .text left ((Quoted.respell s).reverse ++ []), opened, done⟩ :=
    State.run_escapes (Utf8.pieces_formed s)
  have closes : State.step ⟨left - 1 - ((Utf8.pieces s).flatMap Quoted.escape).length,
        .text left ((Quoted.respell s).reverse ++ []), opened, done⟩ Quoted.quoteMark =
      .ok (State.held (left - 1 - ((Utf8.pieces s).flatMap Quoted.escape).length - 1) []
        (settleAll [.str (Quoted.respell s)] (opened, done))) := by
    simp [State.step, State.settleAt, State.flush, State.advance, State.take, Quoted.quoteMark,
      Quoted.backslash, Except.map, State.give, State.held, Mode.pending, settleAll]
  rw [Quoted.quote, State.run_cons opens, State.run_append body, State.run_cons closes,
    List.length_cons, List.length_append, Nat.sub_sub, Nat.sub_sub,
    Nat.add_comm 1, Nat.add_right_comm]
  rfl

/-- A text that is read to its end is a text of these values. -/
theorem parse_of_scans {text : Bytes} {r : Reading} (scans : Scans text r) :
    parse text = .ok r.all := by
  have whole := scans text.length ([], [])
  have finished : (State.held (text.length - text.length) r.rest
      (settleAll r.values ([], []))).finish = .ok r.all.reverse := by
    rw [State.finish, State.flush_held, ← settleAll_append, settleAll_done]
    simp [State.held, Mode.pending, Reading.all]
  have started : State.start text = State.held text.length [] ([], []) := rfl
  simp only [parse, started, whole, finished, List.reverse_reverse]

end ProcLisp.Reader
