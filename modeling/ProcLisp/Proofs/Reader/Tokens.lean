import ProcLisp.Proofs.Reader.Scans
import ProcLisp.Proofs.Results

/-!
# Tokens

A text is cut into marks, strings and atoms by longest match, with white space and comments between
them. What the scanner makes of a text depends on its tokens only: `parse_fault` tells from them
what is read, or why nothing is.
-/

namespace ProcLisp.Reader

inductive Token where
  | opening
  | closing
  | quote
  /-- What stands between the quotes, with its escapes as they are written. -/
  | text (raw : Bytes)
  | atom (s : Bytes)
  deriving DecidableEq, Repr

/-- The tokens of a text. It may end inside of a string, and there after a backslash (`some true`)
or not (`some false`). -/
structure Lexed where
  tokens : List Token := []
  unclosed : Option Bool := none
  deriving DecidableEq, Repr

def Lexed.cons (t : Token) (l : Lexed) : Lexed := { l with tokens := t :: l.tokens }

/-- A string up to its closing quote, and what follows. A backslash takes the next byte with it. -/
def literal : Bytes → Except Bool (Bytes × Bytes)
  | [] => .error false
  | c :: s =>
    if c = Quoted.quoteMark then .ok ([], s)
    else if c = Quoted.backslash then
      match s with
      | [] => .error true
      | d :: s => (literal s).map fun cut => (c :: d :: cut.1, cut.2)
    else (literal s).map fun cut => (c :: cut.1, cut.2)

theorem length_literal {s : Bytes} {cut : Bytes × Bytes} (ends : literal s = .ok cut) :
    cut.2.length < s.length := by
  fun_induction literal s generalizing cut with
  | case1 => cases ends
  | case2 s =>
    obtain rfl := Except.ok.inj ends
    exact Nat.lt_succ_self _
  | case3 => cases ends
  | case4 d s _ ih =>
    cases later : literal s with
    | error dangling => simp [later, Except.map] at ends
    | ok rest =>
      rw [later] at ends
      obtain rfl := Except.ok.inj ends
      have shorter := ih later
      exact Nat.lt_succ_of_lt (Nat.lt_succ_of_lt shorter)
  | case5 c s _ _ ih =>
    cases later : literal s with
    | error dangling => simp [later, Except.map] at ends
    | ok rest =>
      rw [later] at ends
      obtain rfl := Except.ok.inj ends
      have shorter := ih later
      exact Nat.lt_succ_of_lt shorter

def lex : Bytes → Lexed
  | [] => {}
  | c :: s =>
    if isBlank c then lex s
    else if c = semicolon then lex (s.dropWhile (· ≠ newline))
    else if c = openParen then (lex s).cons .opening
    else if c = closeParen then (lex s).cons .closing
    else if c = quoteMark then (lex s).cons .quote
    else if c = Quoted.quoteMark then
      match _ends : literal s with
      | .error dangling => { unclosed := some dangling }
      | .ok cut => (lex cut.2).cons (.text cut.1)
    else
      (lex (s.dropWhile (!isDelimiter ·))).cons (.atom (c :: s.takeWhile (!isDelimiter ·)))
termination_by s => s.length
decreasing_by
  all_goals simp only [List.length_cons]
  · omega
  · exact Nat.lt_succ_of_le (List.dropWhile_sublist _).length_le
  · omega
  · omega
  · omega
  · exact Nat.lt_succ_of_lt (length_literal _ends)
  · exact Nat.lt_succ_of_le (List.dropWhile_sublist _).length_le

/-- The text that a literal stands for. -/
def unescaped : Bytes → Bytes
  | [] => []
  | [c] => [c]
  | c :: d :: s =>
    if c = Quoted.backslash then unescape d :: unescaped s else c :: unescaped (d :: s)

theorem unescaped_marked (d : UInt8) (s : Bytes) :
    unescaped (Quoted.backslash :: d :: s) = unescape d :: unescaped s := by
  rw [unescaped, if_pos rfl]

theorem unescaped_plain {c : UInt8} (plain : c ≠ Quoted.backslash) (s : Bytes) :
    unescaped (c :: s) = c :: unescaped s := by
  cases s with
  | nil => rfl
  | cons d s => rw [unescaped, if_neg plain]

/-! ### The scanner on tokens -/

/-- What is open, innermost first, and the values that are complete, newest first. -/
abbrev Place := List Opened × List Value

def Opened.unplaced : Opened → Opened
  | .list _ items => .list 0 items
  | .quote => .quote

/-- A place without the positions of its lists. -/
def Place.unplaced (p : Place) : Place := (p.1.map .unplaced, p.2)

def Token.feed : Token → Place → Option Place
  | .opening, (opened, done) => some (.list 0 [] :: opened, done)
  | .closing, (.list _ items :: opened, done) => some (settle (.list items.reverse) opened done)
  | .closing, _ => none
  | .quote, (opened, done) => some (.quote :: opened, done)
  | .text raw, (opened, done) => some (settle (.str (unescaped raw)) opened done)
  | .atom s, (opened, done) => some (settle (atomValue s) opened done)

def feedAll (ts : List Token) (p : Place) : Option Place := ts.foldlM (fun p t => t.feed p) p

@[simp] theorem feedAll_nil (p : Place) : feedAll [] p = some p := rfl

@[simp] theorem feedAll_cons (t : Token) (ts : List Token) (p : Place) :
    feedAll (t :: ts) p = (t.feed p).bind (feedAll ts) := rfl

theorem feedAll_append (ts us : List Token) (p : Place) :
    feedAll (ts ++ us) p = (feedAll ts p).bind (feedAll us) := List.foldlM_append

/-- Where a text leads to from `p`, or what is wrong with it. -/
def Lexed.reading (l : Lexed) (p : Place) : Except Fault Place :=
  match feedAll l.tokens p, l.unclosed with
  | none, _ => .error .strayClose
  | some _, some dangling => .error (.unclosedString dangling)
  | some p, none => .ok p

theorem Lexed.reading_cons (t : Token) (l : Lexed) (p : Place) :
    (l.cons t).reading p = match t.feed p with
      | some p => l.reading p
      | none => .error .strayClose := by
  unfold reading cons
  rw [feedAll_cons]
  cases t.feed p <;> rfl

/-- What may be made of a text that ends at a place. -/
def Place.finish : Place → Except Fault (List Value)
  | ([], done) => .ok done.reverse
  | (.quote :: _, _) => .error .endOfInput
  | (.list _ _ :: _, _) => .error .unclosedList

theorem Place.finish_unplaced (p : Place) : p.unplaced.finish = p.finish := by
  obtain ⟨_ | ⟨_ | _, opened⟩, done⟩ := p <;> rfl

theorem unplaced_settle (v : Value) (opened : List Opened) (done : List Value) :
    Place.unplaced (settle v opened done) = settle v (opened.map .unplaced) done := by
  fun_induction settle v opened done with
  | case1 => rfl
  | case2 v rest done ih => exact ih
  | case3 => rfl

namespace State

variable {st next : State}

/-- Where the scanner gets on a text, positions apart. -/
def reading (st : State) (s : Bytes) : Except Fault Place :=
  match st.run s with
  | .error e => .error e.fault
  | .ok st => match st.flush.mode with
    | .text .. => .error (.unclosedString false)
    | .escape .. => .error (.unclosedString true)
    | _ => .ok (Place.unplaced (st.flush.opened, st.flush.done))

theorem reading_cons {c : UInt8} (stepped : st.step c = .ok next) (s : Bytes) :
    st.reading (c :: s) = next.reading s := by
  unfold reading
  rw [run_cons stepped]

theorem reading_stray {c : UInt8} {left : Nat} (stepped : st.step c = .error ⟨.strayClose, left⟩)
    (s : Bytes) : st.reading (c :: s) = .error .strayClose := by
  unfold reading
  rw [run, stepped]

/-- An atom goes on up to the next delimiter. -/
theorem reading_atom (left : Nat) {rest : Bytes} (filled : rest ≠ []) (p : Place) (s : Bytes) :
    ∃ left', (held left rest p).reading s =
      (held left' [] (settle (atomValue (rest ++ s.takeWhile (!isDelimiter ·))) p.1 p.2)).reading
        (s.dropWhile (!isDelimiter ·)) := by
  -- on what follows, for every beginning of the atom
  induction s generalizing left rest with
  | nil =>
    refine ⟨left, ?_⟩
    cases rest with
    | nil => exact absurd rfl filled
    | cons c rest => simp [reading, run, flush_held, settleAll, atoms]
  | cons c s ih =>
    cases inside : isDelimiter c with
    | false =>
      have filled : rest ++ [c] ≠ [] := by simp
      obtain ⟨left', later⟩ := ih (left - 1) filled
      refine ⟨left', ?_⟩
      rw [reading_cons (step_held inside left rest p), later]
      simp [inside]
    | true =>
      refine ⟨left, ?_⟩
      have settled : (held left rest p).step c =
          (held left [] (settleAll (atoms rest) p)).step c := by
        rw [step_delimiter inside, step_delimiter inside]
        rfl
      cases rest with
      | nil => exact absurd rfl filled
      | cons d rest => simp [reading, run, settled, inside, settleAll, atoms]

theorem reading_literal (left start : Nat) (read : Bytes) (p : Place) (s : Bytes) :
    match literal s with
    | .error dangling =>
      reading ⟨left, .text start read, p.1, p.2⟩ s = .error (.unclosedString dangling)
    | .ok cut => ∃ left', reading ⟨left, .text start read, p.1, p.2⟩ s =
        (held left' [] (settle (.str (read.reverse ++ unescaped cut.1)) p.1 p.2)).reading
          cut.2 := by
  fun_induction literal s generalizing left read with
  | case1 => rfl
  | case2 s =>
    refine ⟨left - 1, ?_⟩
    have closes : step ⟨left, .text start read, p.1, p.2⟩ Quoted.quoteMark =
        .ok (held (left - 1) [] (settle (.str (read.reverse ++ [])) p.1 p.2)) := by
      rw [List.append_nil]
      rfl
    exact reading_cons closes s
  | case3 => rfl
  | case4 d s _ ih =>
    -- the backslash and the byte that it marks are two steps of the scanner
    have marked : reading ⟨left, .text start read, p.1, p.2⟩ (Quoted.backslash :: d :: s) =
        reading ⟨left - 1 - 1, .text start (unescape d :: read), p.1, p.2⟩ s := by
      unfold reading
      rw [run_marked]
    have later := ih (left - 1 - 1) (unescape d :: read)
    cases ends : literal s with
    | error dangling =>
      rw [ends] at later
      exact marked.trans later
    | ok cut =>
      rw [ends] at later
      obtain ⟨left', same⟩ := later
      refine ⟨left', marked.trans ?_⟩
      simpa [unescaped_marked] using same
  | case5 c s notQuote notBackslash ih =>
    have plain : step ⟨left, .text start read, p.1, p.2⟩ c =
        .ok ⟨left - 1, .text start (c :: read), p.1, p.2⟩ := by
      simp [step, settleAt, flush, advance, take, notQuote, notBackslash, Except.map]
    have later := ih (left - 1) (c :: read)
    cases ends : literal s with
    | error dangling =>
      rw [ends] at later
      exact (reading_cons plain s).trans later
    | ok cut =>
      rw [ends] at later
      obtain ⟨left', same⟩ := later
      refine ⟨left', (reading_cons plain s).trans ?_⟩
      simpa [unescaped_plain notBackslash] using same

theorem reading_comment (left : Nat) (p : Place) (s : Bytes) :
    ∃ left', reading ⟨left, .comment, p.1, p.2⟩ s =
      (held left' [] p).reading (s.dropWhile (· ≠ newline)) := by
  induction s generalizing left with
  | nil => exact ⟨left, rfl⟩
  | cons c s ih =>
    by_cases last : c = newline
    · subst last
      refine ⟨left, ?_⟩
      have ends : step ⟨left, .comment, p.1, p.2⟩ newline = .ok (held (left - 1) [] p) := rfl
      have blank : (held left [] p).step newline = .ok (held (left - 1) [] p) := rfl
      rw [reading_cons ends]
      exact (reading_cons blank s).symm
    · obtain ⟨left', later⟩ := ih (left - 1)
      refine ⟨left', ?_⟩
      have goesOn : step ⟨left, .comment, p.1, p.2⟩ c =
          .ok ⟨left - 1, .comment, p.1, p.2⟩ := by
        simp [step, settleAt, flush, advance, take, last, Except.map]
      rw [reading_cons goesOn, later]
      simp [last]

end State

/-- From between two tokens the scanner gets where the tokens lead. -/
theorem reading_held (s : Bytes) (left : Nat) (p : Place) :
    (State.held left [] p).reading s = (lex s).reading p.unplaced := by
  -- along the lexer: in each case the scanner gets past one token, or what is between two
  fun_induction lex s generalizing left p with
  | case1 => rfl
  | case2 c s blank ih =>
    have stepped : (State.held left [] p).step c = .ok (State.held (left - 1) [] p) := by
      simp [State.step, State.settleAt, isDelimiter, blank, State.flush, State.advance, State.take,
        State.between, State.held, Mode.pending, Except.map]
    rw [State.reading_cons stepped, ih]
  | case3 s notBlank ih =>
    have stepped : (State.held left [] p).step semicolon =
        .ok ⟨left - 1, .comment, p.1, p.2⟩ := rfl
    obtain ⟨left', later⟩ := State.reading_comment (left - 1) p s
    rw [State.reading_cons stepped, later, ih]
  | case4 s notBlank _ ih =>
    have stepped : (State.held left [] p).step openParen =
        .ok (State.held (left - 1) [] (.list left [] :: p.1, p.2)) := rfl
    rw [State.reading_cons stepped, ih, Lexed.reading_cons]
    rfl
  | case5 s notBlank _ _ ih =>
    obtain ⟨_ | ⟨_ | _, opened⟩, done⟩ := p
    · exact State.reading_stray rfl s
    · rename_i start items
      have stepped : (State.held left [] (.list start items :: opened, done)).step closeParen =
          .ok (State.held (left - 1) [] (settle (.list items.reverse) opened done)) := rfl
      rw [State.reading_cons stepped, ih, Lexed.reading_cons, unplaced_settle]
      rfl
    · exact State.reading_stray rfl s
  | case6 s notBlank _ _ _ ih =>
    have stepped : (State.held left [] p).step quoteMark =
        .ok (State.held (left - 1) [] (.quote :: p.1, p.2)) := rfl
    rw [State.reading_cons stepped, ih, Lexed.reading_cons]
    rfl
  | case7 s dangling ends =>
    have stepped : (State.held left [] p).step Quoted.quoteMark =
        .ok ⟨left - 1, .text left [], p.1, p.2⟩ := rfl
    have later := State.reading_literal (left - 1) left [] p s
    rw [ends] at later
    rw [State.reading_cons stepped, later]
    rfl
  | case8 s cut ends _ _ _ _ _ ih =>
    have stepped : (State.held left [] p).step Quoted.quoteMark =
        .ok ⟨left - 1, .text left [], p.1, p.2⟩ := rfl
    have later := State.reading_literal (left - 1) left [] p s
    rw [ends] at later
    obtain ⟨left', same⟩ := later
    rw [State.reading_cons stepped, same, ih, Lexed.reading_cons, unplaced_settle]
    rfl
  | case9 c s notBlank notComment notOpen notClose notQuote notString ih =>
    have inside : isDelimiter c = false := by
      simp [isDelimiter, notBlank, notComment, notOpen, notClose, notQuote, notString]
    have one : [c] ≠ [] := List.cons_ne_nil c []
    obtain ⟨left', later⟩ := State.reading_atom (left - 1) one p s
    rw [State.reading_cons (State.step_held inside left [] p), List.nil_append, later, ih,
      Lexed.reading_cons, unplaced_settle]
    rfl

/-- What is read of a text, or what is wrong with it, told from its tokens. -/
theorem parse_fault (src : Bytes) :
    (parse src).mapError ParseError.fault = ((lex src).reading ([], [])).bind Place.finish := by
  have tokens := reading_held src src.length ([], [])
  have started : State.start src = State.held src.length [] ([], []) := rfl
  rw [show Place.unplaced ([], []) = ([], []) from rfl, ← started] at tokens
  rw [← tokens, parse, State.reading]
  cases State.run (State.start src) src with
  | error e => rfl
  | ok st =>
    simp only [State.finish]
    cases st.flush.mode with
    | text | escape => rfl
    | between | comment | atom =>
      simp only [Except.bind, Place.finish_unplaced]
      obtain _ | ⟨_ | _, opened⟩ := st.flush.opened <;> rfl

end ProcLisp.Reader
