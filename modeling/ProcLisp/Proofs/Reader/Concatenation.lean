import ProcLisp.Proofs.Reader.Breaks
import ProcLisp.Proofs.Results

/-!
# Texts one after the other

The scanner reads a text within a longer one as it reads it alone: `Amid` relates the two runs, and
says how places in the one are found in the other. After a text that is read to its end a line break
leaves nothing behind but its values, so the text of the next lines is read as if it stood alone.
-/

namespace ProcLisp.Reader

/-- The token of a text of `size` bytes, alone and with `behind` more bytes after it. -/
inductive Mode.Amid (size behind : Nat) : Mode → Mode → Prop
  | between : Amid size behind .between .between
  | comment : Amid size behind .comment .comment
  | atom (read : Bytes) : Amid size behind (.atom read) (.atom read)
  | text {left : Nat} (inside : left ≤ size) (read : Bytes) :
      Amid size behind (.text left read) (.text (left + behind) read)
  | escape {left : Nat} (inside : left ≤ size) (read : Bytes) :
      Amid size behind (.escape left read) (.escape (left + behind) read)

inductive Opened.Amid (size behind : Nat) : Opened → Opened → Prop
  | list {left : Nat} (inside : left ≤ size) (items : List Value) :
      Amid size behind (.list left items) (.list (left + behind) items)
  | quote : Amid size behind .quote .quote

/-- A scanner of a text of `size` bytes, and one that has read the values `before` already and has
`behind` more bytes to come after the text. -/
structure State.Amid (size behind : Nat) (before : List Value) (st st' : State) : Prop where
  inside : st.left ≤ size
  left : st'.left = st.left + behind
  mode : Mode.Amid size behind st.mode st'.mode
  opened : List.Forall₂ (Opened.Amid size behind) st.opened st'.opened
  done : st'.done = st.done ++ before

/-- The same fault at the same place of the text. -/
structure Stuck.Amid (size behind : Nat) (e e' : Stuck) : Prop where
  inside : e.left ≤ size
  left : e'.left = e.left + behind
  fault : e'.fault = e.fault

variable {size behind : Nat} {before : List Value} {st st' next : State} {c : UInt8}

theorem settle_amid (v : Value) {opened opened' : List Opened} (done before : List Value)
    (around : List.Forall₂ (Opened.Amid size behind) opened opened') :
    List.Forall₂ (Opened.Amid size behind) (settle v opened done).1
        (settle v opened' (done ++ before)).1 ∧
      (settle v opened' (done ++ before)).2 = (settle v opened done).2 ++ before := by
  induction around generalizing v with
  | nil => exact ⟨.nil, rfl⟩
  | cons first rest ih =>
    cases first with
    | list inside items => exact ⟨.cons (.list inside (v :: items)) rest, rfl⟩
    | quote => exact ih (quoted v)

namespace State

theorem left_flush (st : State) : st.flush.left = st.left := by
  unfold flush
  split <;> rfl

theorem left_settleAt (st : State) (c : UInt8) : (st.settleAt c).left = st.left := by
  unfold settleAt
  split
  · exact st.left_flush
  · rfl

theorem left_step (stepped : st.step c = .ok next) : next.left = st.left - 1 := by
  obtain ⟨taken, -, rfl⟩ := exists_of_map_ok stepped
  exact congrArg (· - 1) (st.left_settleAt c)

theorem left_run {s : Bytes} (ran : st.run s = .ok next) : next.left = st.left - s.length := by
  induction s generalizing st with
  | nil =>
    obtain rfl := Except.ok.inj ran
    rfl
  | cons c s ih =>
    cases stepped : st.step c with
    | error e =>
      rw [run, stepped] at ran
      cases ran
    | ok mid =>
      rw [run_cons stepped] at ran
      rw [ih ran, left_step stepped, List.length_cons]
      omega

theorem finish_eq_ok {done : List Value} (finished : st.finish = .ok done) :
    st.inString = false ∧ st.flush.opened = [] ∧ st.flush.done = done := by
  have verdict : st.verdict = .ok done.reverse := by
    unfold State.verdict
    rw [finished]
  rw [verdict_eq_ite] at verdict
  split at verdict
  · cases verdict
  · rename_i outside
    refine ⟨by simpa using outside, ?_⟩
    generalize st.flush.opened = opened at verdict
    obtain _ | ⟨_ | _, rest⟩ := opened
    · exact ⟨rfl, List.reverse_injective (Except.ok.inj verdict)⟩
    · cases verdict
    · cases verdict

theorem finish_ne_stray (st : State) (left : Nat) : st.finish ≠ .error ⟨.strayClose, left⟩ := by
  unfold finish
  obtain ⟨_, mode, opened, done⟩ := st.flush
  cases mode with
  | text | escape => nofun
  | between | comment | atom => obtain _ | ⟨_ | _, rest⟩ := opened <;> nofun

theorem run_of_stray {s : Bytes} {position : Nat}
    (failed : parse s = .error ⟨position, .strayClose⟩) :
    ∃ stuck, (start s).run s = .error stuck ∧
      stuck.place 0 s.length = ⟨position, .strayClose⟩ := by
  unfold parse at failed
  split at failed
  · rename_i stuck ran
    exact ⟨stuck, ran, Except.error.inj failed⟩
  · split at failed
    · rename_i stuck finished
      have stray : stuck.fault = .strayClose :=
        congrArg ParseError.fault (Except.error.inj failed)
      obtain ⟨fault, left⟩ := stuck
      subst stray
      exact absurd finished (finish_ne_stray _ left)
    · cases failed

namespace Amid

theorem give (amid : Amid size behind before st st') (v : Value) :
    Amid size behind before (st.give v) (st'.give v) := by
  obtain ⟨opened, done⟩ := settle_amid v st.done before amid.opened
  rw [← amid.done] at opened done
  exact ⟨amid.inside, amid.left, .between, opened, done⟩

theorem flush (amid : Amid size behind before st st') :
    Amid size behind before st.flush st'.flush := by
  have modes := amid.mode
  unfold State.flush
  generalize st.mode = mode, st'.mode = mode' at modes
  cases modes with
  | atom read => exact amid.give (atomValue read.reverse)
  | between | comment | text | escape => exact amid

theorem settleAt (amid : Amid size behind before st st') (c : UInt8) :
    Amid size behind before (st.settleAt c) (st'.settleAt c) := by
  unfold State.settleAt
  split
  · exact amid.flush
  · exact amid

theorem between (amid : Amid size behind before st st') (c : UInt8) :
    Concur (Stuck.Amid size behind) (Amid size behind before) (st.between c) (st'.between c) := by
  have opened := amid.opened
  unfold State.between
  split
  · exact .ok amid
  split
  · exact .ok ⟨amid.inside, amid.left, .comment, opened, amid.done⟩
  split
  · rw [amid.left]
    exact .ok ⟨amid.inside, rfl, amid.mode, .cons (.list amid.inside []) opened, amid.done⟩
  split
  · obtain ⟨left, mode, around, done⟩ := st
    obtain ⟨left', mode', around', done'⟩ := st'
    have stray : Stuck.Amid size behind ⟨.strayClose, left⟩ ⟨.strayClose, left'⟩ :=
      ⟨amid.inside, amid.left, rfl⟩
    cases opened with
    | nil => exact .error stray
    | @cons _ _ opened opened' first rest =>
      cases first with
      | quote => exact .error stray
      | list inside items =>
        have below : Amid size behind before ⟨left, mode, opened, done⟩
            ⟨left', mode', opened', done'⟩ :=
          ⟨amid.inside, amid.left, amid.mode, rest, amid.done⟩
        exact .ok (below.give (.list items.reverse))
  split
  · exact .ok ⟨amid.inside, amid.left, amid.mode, .cons .quote opened, amid.done⟩
  split
  · rw [amid.left]
    exact .ok ⟨amid.inside, rfl, .text amid.inside [], opened, amid.done⟩
  · exact .ok ⟨amid.inside, amid.left, .atom [c], opened, amid.done⟩

theorem take (amid : Amid size behind before st st') (c : UInt8) :
    Concur (Stuck.Amid size behind) (Amid size behind before) (st.take c) (st'.take c) := by
  have modes := amid.mode
  have goesOn : ∀ {mode mode'}, Mode.Amid size behind mode mode' →
      Amid size behind before { st with mode } { st' with mode := mode' } := fun mode =>
    ⟨amid.inside, amid.left, mode, amid.opened, amid.done⟩
  unfold State.take
  generalize st.mode = mode, st'.mode = mode' at modes
  cases modes with
  | between => exact amid.between c
  | comment =>
    dsimp only
    split
    · exact .ok (goesOn .between)
    · exact .ok amid
  | atom read => exact .ok (goesOn (.atom (c :: read)))
  | text inside read =>
    dsimp only
    split
    · exact .ok (goesOn (.escape inside read))
    split
    · exact .ok (amid.give (.str read.reverse))
    · exact .ok (goesOn (.text inside (c :: read)))
  | escape inside read => exact .ok (goesOn (.text inside (unescape c :: read)))

theorem step (amid : Amid size behind before st st') (more : 0 < st.left) (c : UInt8) :
    Concur (Stuck.Amid size behind) (Amid size behind before) (st.step c) (st'.step c) := by
  have settled := amid.settleAt c
  refine (settled.take c).map fun {next next'} taken => ?_
  have there : (st.settleAt c).left = st.left := st.left_settleAt c
  have inside := settled.inside
  have left := settled.left
  exact ⟨by dsimp only; omega, by dsimp only; omega, taken.mode, taken.opened, taken.done⟩

/-- The scanner goes through the text in step, and is stuck at the same place of it. -/
theorem run (amid : Amid size behind before st st') {s : Bytes} (more : s.length ≤ st.left) :
    Concur (Stuck.Amid size behind) (Amid size behind before) (st.run s) (st'.run s) := by
  induction s generalizing st st' with
  | nil => exact .ok amid
  | cons c s ih =>
    rw [List.length_cons] at more
    have stepped := amid.step (by omega) c
    rw [State.run, State.run]
    generalize found : st.step c = next, st'.step c = next' at stepped
    cases stepped with
    | ok next =>
      have left := left_step found
      exact ih next (by omega)
    | error stuck => exact .error stuck

/-- Where nothing follows, the text ends alike. -/
theorem finish (amid : Amid size 0 before st st') :
    Concur (Stuck.Amid size 0) (fun vs ws => ws = vs ++ before) st.finish st'.finish := by
  have flushed := amid.flush
  unfold State.finish
  generalize st.flush = last, st'.flush = last' at flushed
  obtain ⟨left, mode, opened, done⟩ := last
  obtain ⟨left', mode', opened', done'⟩ := last'
  have ends : Concur (Stuck.Amid size 0) (fun vs ws => ws = vs ++ before)
      (State.finish ⟨left, .between, opened, done⟩)
      (State.finish ⟨left', .between, opened', done'⟩) := by
    cases flushed.opened with
    | nil => exact .ok flushed.done
    | cons first rest =>
      cases first with
      | list inside => exact .error ⟨inside, rfl, rfl⟩
      | quote => exact .error ⟨Nat.zero_le _, rfl, rfl⟩
  cases flushed.mode with
  | text inside => exact .error ⟨inside, rfl, rfl⟩
  | escape inside => exact .error ⟨inside, rfl, rfl⟩
  | between | comment | atom => exact ends

/-- The scanner reads the last text as it reads it alone, after the values before it. -/
theorem read (amid : Amid size 0 before st st') {s : Bytes} (more : s.length ≤ st.left) :
    Concur (Stuck.Amid size 0) (fun vs ws => ws = vs ++ before) ((st.run s).bind State.finish)
      ((st'.run s).bind State.finish) := by
  have ran := amid.run more
  generalize st.run s = last, st'.run s = last' at ran
  cases ran with
  | ok amid => exact amid.finish
  | error stuck => exact .error stuck

end Amid

theorem start_amid (s : Bytes) (behind : Nat) :
    Amid s.length behind [] (start s) { left := s.length + behind } :=
  ⟨Nat.le_refl _, rfl, .between, .nil, rfl⟩

/-- After a text that is read to its end and a line break there are its values, and nothing else. -/
theorem run_line {s : Bytes} {vs : List Value} (read : parse s = .ok vs) (t : Bytes) :
    (start (s ++ newline :: t)).run (s ++ [newline]) =
      .ok { left := t.length, done := vs.reverse } := by
  have amid := (start_amid s (t.length + 1)).run (Nat.le_refl _)
  have whole : start (s ++ newline :: t) = { left := s.length + (t.length + 1) } := by
    simp [start]
  rw [whole]
  unfold parse at read
  generalize ran : (start s).run s = x,
    ran' : run { left := s.length + (t.length + 1) } s = x' at amid read
  cases amid with
  | error => cases read
  | @ok last last' amid =>
    dsimp only at read
    split at read
    · cases read
    rename_i done finished
    obtain rfl := Except.ok.inj read
    obtain ⟨outside, opened, values⟩ := finish_eq_ok finished
    have flushed := amid.flush
    have outside' : last'.inString = false := by
      have modes := amid.mode
      unfold inString at outside ⊢
      generalize last.mode = mode, last'.mode = mode' at modes outside ⊢
      cases modes with
      | between | comment | atom => rfl
      | text | escape => cases outside
    have left : last'.left = t.length + 1 := by
      have ended : last.left = s.length - s.length := left_run ran
      have placed := amid.left
      omega
    have opened' : last'.flush.opened = [] := by
      have around := flushed.opened
      rw [opened] at around
      exact List.forall₂_nil_left_iff.mp around
    rw [run_append ran', run_one, step_newline outside', left, opened', flushed.done, values]
    simp

end State

theorem parse_eq (src : Bytes) :
    parse src = ((((State.start src).run src).bind State.finish).map List.reverse).mapError
      (·.place 0 src.length) := by
  unfold parse
  cases (State.start src).run src with
  | error stuck => rfl
  | ok last => cases h : last.finish <;> simp [Except.bind, Except.map, Except.mapError, h]

/-- A text that is read to its end and the text of the lines after it are read one after the other:
the values of both, or the fault of the second text at its place behind the first one. A parenthesis
that closes nothing stays at its place whatever follows. -/
theorem parse_append (s t : Bytes) :
    (∀ vs, parse s = .ok vs → parse (s ++ newline :: t) = match parse t with
      | .ok ws => .ok (vs ++ ws)
      | .error e => .error { e with position := e.position + s.length + 1 }) ∧
    ∀ position, parse s = .error ⟨position, .strayClose⟩ →
      parse (s ++ t) = .error ⟨position, .strayClose⟩ := by
  constructor
  · intro vs read
    have amid : State.Amid t.length 0 vs.reverse (.start t)
        { left := t.length, done := vs.reverse } :=
      ⟨Nat.le_refl _, rfl, .between, .nil, rfl⟩
    have line : (State.start (s ++ newline :: t)).run (s ++ newline :: t) =
        State.run { left := t.length, done := vs.reverse } t := by
      have joined := State.run_append (State.run_line read t) t
      rwa [List.append_assoc] at joined
    have both := amid.read (Nat.le_refl _)
    rw [parse_eq (s ++ newline :: t), line, parse_eq t]
    generalize ((State.start t).run t).bind State.finish = x,
      (State.run { left := t.length, done := vs.reverse } t).bind State.finish = y at both
    cases both with
    | ok values => simp [Except.map, Except.mapError, values]
    | error stuck =>
      obtain ⟨inside, left, fault⟩ := stuck
      simp only [Except.map, Except.mapError, Stuck.place, fault, left, List.length_append,
        List.length_cons, Except.error.injEq, ParseError.mk.injEq, and_true]
      omega
  · intro position failed
    obtain ⟨stuck, alone, placed⟩ := State.run_of_stray failed
    have within := (State.start_amid s t.length).run (Nat.le_refl _)
    rw [alone] at within
    generalize ran : State.run { left := s.length + t.length } s = x at within
    cases within with
    | error within =>
      have start : State.start (s ++ t) = { left := s.length + t.length } := by simp [State.start]
      rw [parse_eq, start, State.run_stuck ran]
      obtain ⟨inside, left, fault⟩ := within
      simp only [Stuck.place, ParseError.mk.injEq] at placed
      simp only [Except.bind, Except.map, Except.mapError, Stuck.place, fault, left,
        List.length_append, Except.error.injEq, ParseError.mk.injEq]
      exact ⟨by omega, placed.2⟩

/-- A comment ends with its line, and a list that is left open starts behind it. -/
theorem parse_append_comment_then_list :
    let s := ascii "a ; b"
    let t := ascii "(\"c\""
    (parse s = .ok [.sym (ascii "a")] ∧
      parse (s ++ newline :: t) = .error ⟨6, .unclosedList⟩) ∧
    parse (ascii "a)") = .error ⟨1, .strayClose⟩ ∧
      parse (ascii "a)" ++ t) = .error ⟨1, .strayClose⟩ := by
  intro s t
  have read : parse s = .ok [.sym (ascii "a")] := rfl
  have stray : parse (ascii "a)") = .error ⟨1, .strayClose⟩ := rfl
  exact ⟨⟨read, (parse_append s t).1 _ read⟩, stray, (parse_append (ascii "a)") t).2 1 stray⟩

end ProcLisp.Reader
