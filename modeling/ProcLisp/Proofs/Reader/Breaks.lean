import Mathlib.Data.List.Forall2
import ProcLisp.Proofs.Reader.Completion
import ProcLisp.Proofs.Reader.RoundTrip

/-!
# White space at the end of a line

White space at the ends of a text changes neither what is read of it nor whether it is incomplete.
At the end of a line that is not the last, it makes no difference to what follows either, unless a
string is open there: then it belongs to that string. States that are `Alike` differ in positions,
and where strings are not kept also in what is in them.
-/

namespace ProcLisp

namespace Reader

/-- A string, or nothing in its place. -/
def spare (keep : Bool) (s : Bytes) : Bytes := if keep then s else []

end Reader

open Reader (spare)

def Value.spared (keep : Bool) (v : Value) : Value := v.mapStrings (spare keep)

theorem Value.spared_true : Value.spared true = id :=
  funext fun v => v.mapStrings_eq_self.mpr fun _ _ => rfl

theorem Value.spared_list (keep : Bool) (items : List Value) :
    (Value.list items).spared keep = .list (items.map (Value.spared keep)) :=
  congrArg Value.list (Value.mapStringsOf_eq_map items)

namespace Reader

/-- The strings that are read may differ if they are not kept. -/
inductive Mode.Alike (keep : Bool) : Mode → Mode → Prop
  | between : Alike keep .between .between
  | comment : Alike keep .comment .comment
  | atom (read : Bytes) : Alike keep (.atom read) (.atom read)
  | text {left left' : Nat} {read read' : Bytes} (same : spare keep read = spare keep read') :
      Alike keep (.text left read) (.text left' read')
  | escape {left left' : Nat} {read read' : Bytes} (same : spare keep read = spare keep read') :
      Alike keep (.escape left read) (.escape left' read')

inductive Opened.Alike (keep : Bool) : Opened → Opened → Prop
  | list {left left' : Nat} {items items' : List Value}
      (same : items.map (Value.spared keep) = items'.map (Value.spared keep)) :
      Alike keep (.list left items) (.list left' items')
  | quote : Alike keep .quote .quote

structure Alike (keep : Bool) (st st' : State) : Prop where
  mode : Mode.Alike keep st.mode st'.mode
  opened : List.Forall₂ (Opened.Alike keep) st.opened st'.opened
  done : st.done.map (Value.spared keep) = st'.done.map (Value.spared keep)

variable {keep : Bool} {st st' mid : State} {c : UInt8} {v v' : Value}

theorem settle_alike {opened opened' : List Opened} {done done' : List Value}
    (around : List.Forall₂ (Opened.Alike keep) opened opened')
    (before : done.map (Value.spared keep) = done'.map (Value.spared keep))
    (same : v.spared keep = v'.spared keep) :
    List.Forall₂ (Opened.Alike keep) (settle v opened done).1 (settle v' opened' done').1 ∧
      (settle v opened done).2.map (Value.spared keep) =
        (settle v' opened' done').2.map (Value.spared keep) := by
  induction around generalizing v v' with
  | nil => exact ⟨.nil, by simp [settle, same, before]⟩
  | cons first rest ih =>
    cases first with
    | list items => exact ⟨.cons (.list (by simp [same, items])) rest, before⟩
    | quote =>
      refine ih ?_
      rw [quoted, quoted, Value.spared_list, Value.spared_list]
      simp [same]

theorem spare_cons (c : UInt8) {s t : Bytes} (same : spare keep s = spare keep t) :
    spare keep (c :: s) = spare keep (c :: t) := by
  cases keep with
  | false => rfl
  | true => exact congrArg (c :: ·) same

theorem spare_reverse {s t : Bytes} (same : spare keep s = spare keep t) :
    spare keep s.reverse = spare keep t.reverse := by
  cases keep with
  | false => rfl
  | true => exact congrArg List.reverse same

/-- Alike states, or faults of one kind. -/
inductive Alongside (keep : Bool) : Except Stuck State → Except Stuck State → Prop
  | ok {st st' : State} (alike : Alike keep st st') : Alongside keep (.ok st) (.ok st')
  | error {e e' : Stuck} (fault : e.fault = e'.fault) : Alongside keep (.error e) (.error e')

namespace Alike

theorem give (alike : Alike keep st st') (same : v.spared keep = v'.spared keep) :
    Alike keep (st.give v) (st'.give v') := by
  obtain ⟨opened, done⟩ := settle_alike alike.opened alike.done same
  exact ⟨.between, opened, done⟩

theorem flush (alike : Alike keep st st') : Alike keep st.flush st'.flush := by
  have modes := alike.mode
  unfold State.flush
  generalize st.mode = mode, st'.mode = mode' at modes
  cases modes with
  | atom read => exact alike.give rfl
  | between | comment | text | escape => exact alike

theorem settleAt (alike : Alike keep st st') (c : UInt8) :
    Alike keep (st.settleAt c) (st'.settleAt c) := by
  unfold State.settleAt
  split
  · exact alike.flush
  · exact alike

theorem between (alike : Alike keep st st') (c : UInt8) :
    Alongside keep (st.between c) (st'.between c) := by
  unfold State.between
  split
  · exact .ok alike
  split
  · exact .ok ⟨.comment, alike.opened, alike.done⟩
  split
  · exact .ok ⟨alike.mode, .cons (.list rfl) alike.opened, alike.done⟩
  split
  · have opened := alike.opened
    obtain ⟨left, mode, around, done⟩ := st
    obtain ⟨left', mode', around', done'⟩ := st'
    cases opened with
    | nil => exact .error rfl
    | cons first rest =>
      cases first with
      | quote => exact .error rfl
      | list items =>
        refine .ok (Alike.give ⟨alike.mode, rest, alike.done⟩ ?_)
        rw [Value.spared_list, Value.spared_list, List.map_reverse, List.map_reverse, items]
  split
  · exact .ok ⟨alike.mode, .cons .quote alike.opened, alike.done⟩
  split
  · exact .ok ⟨.text rfl, alike.opened, alike.done⟩
  · exact .ok ⟨.atom [c], alike.opened, alike.done⟩

theorem take (alike : Alike keep st st') (c : UInt8) :
    Alongside keep (st.take c) (st'.take c) := by
  have modes := alike.mode
  unfold State.take
  generalize st.mode = mode, st'.mode = mode' at modes
  cases modes with
  | between => exact alike.between c
  | comment =>
    dsimp only
    split
    · exact .ok ⟨.between, alike.opened, alike.done⟩
    · exact .ok alike
  | atom read => exact .ok ⟨.atom (c :: read), alike.opened, alike.done⟩
  | text same =>
    dsimp only
    split
    · exact .ok ⟨.escape same, alike.opened, alike.done⟩
    split
    · exact .ok (alike.give (congrArg Value.str (spare_reverse same)))
    · exact .ok ⟨.text (spare_cons c same), alike.opened, alike.done⟩
  | escape same => exact .ok ⟨.text (spare_cons (unescape c) same), alike.opened, alike.done⟩

theorem step (alike : Alike keep st st') (c : UInt8) :
    Alongside keep (st.step c) (st'.step c) := by
  have taken := (alike.settleAt c).take c
  unfold State.step State.advance
  generalize (st.settleAt c).take c = next, (st'.settleAt c).take c = next' at taken
  cases taken with
  | ok next => exact .ok ⟨next.mode, next.opened, next.done⟩
  | error fault => exact .error fault

/-- Alike states stay alike. -/
theorem run (alike : Alike keep st st') (s : Bytes) : Alongside keep (st.run s) (st'.run s) := by
  induction s generalizing st st' with
  | nil => exact .ok alike
  | cons c s ih =>
    have stepped := alike.step c
    rw [State.run, State.run]
    generalize st.step c = next, st'.step c = next' at stepped
    cases stepped with
    | ok next => exact ih next
    | error fault => exact .error fault

theorem refl (st : State) : Alike keep st st := by
  obtain ⟨left, mode, opened, done⟩ := st
  refine ⟨?_, List.forall₂_same.mpr fun o _ => ?_, rfl⟩
  · cases mode with
    | between => exact .between
    | comment => exact .comment
    | atom read => exact .atom read
    | text => exact .text rfl
    | escape => exact .escape rfl
  · cases o with
    | list => exact .list rfl
    | quote => exact .quote

theorem trans (first : Alike keep st mid) (second : Alike keep mid st') : Alike keep st st' := by
  refine ⟨?_, ?_, first.done.trans second.done⟩
  · have modes := first.mode
    have modes' := second.mode
    generalize st.mode = x, mid.mode = y, st'.mode = z at modes modes'
    cases modes with
    | between | comment | atom => exact modes'
    | text same =>
      cases modes' with
      | text same' => exact .text (same.trans same')
    | escape same =>
      cases modes' with
      | escape same' => exact .escape (same.trans same')
  · have places := first.opened
    have places' := second.opened
    generalize st.opened = x, mid.opened = y, st'.opened = z at places places'
    induction places generalizing z with
    | nil => exact places'
    | cons o rest ih =>
      cases places' with
      | cons o' rest' =>
        refine .cons ?_ (ih _ rest')
        cases o with
        | quote => exact o'
        | list same =>
          cases o' with
          | list same' => exact .list (same.trans same')

end Alike

theorem Alongside.trans {x y z : Except Stuck State} (first : Alongside keep x y)
    (second : Alongside keep y z) : Alongside keep x z := by
  cases first with
  | ok alike =>
    cases second with
    | ok alike' => exact .ok (alike.trans alike')
  | error fault =>
    cases second with
    | error fault' => exact .error (fault.trans fault')

/-! ### Where a text may end -/

def Place.verdict : Place → Except Bool (List Value)
  | (.list _ _ :: _, _) => .error true
  | (.quote :: _, _) => .error false
  | ([], done) => .ok done.reverse

namespace State

/-- The values of a text that ends here, or whether more text could complete it. -/
def verdict (st : State) : Except Bool (List Value) :=
  match st.finish with
  | .ok done => .ok done.reverse
  | .error e => .error (e.place 0 0).incomplete

def inString (st : State) : Bool :=
  match st.mode with
  | .text .. | .escape .. => true
  | _ => false

/-- White space leads from `st` to `next`. -/
structure Rests (st next : State) : Prop where
  inString : next.inString = st.inString
  opened : next.flush.opened = st.flush.opened
  done : next.flush.done = st.flush.done

theorem Rests.trans (first : Rests st mid) (second : Rests mid st') : Rests st st' :=
  ⟨second.inString.trans first.inString, second.opened.trans first.opened,
    second.done.trans first.done⟩

theorem step_blank (blank : isBlank c) (st : State) :
    ∃ next, st.step c = .ok next ∧ Rests st next := by
  have delimiter : isDelimiter c := by simp [isDelimiter, blank]
  have other : c ≠ Quoted.backslash ∧ c ≠ Quoted.quoteMark := by
    constructor <;> rintro rfl <;> exact absurd blank (by decide)
  obtain ⟨left, mode, opened, done⟩ := st
  cases mode with
  | between =>
    refine ⟨⟨left - 1, .between, opened, done⟩, ?_, rfl, rfl, rfl⟩
    simp [step, settleAt, delimiter, flush, advance, take, State.between, blank, Except.map]
  | comment =>
    refine ⟨⟨left - 1, if c = newline then .between else .comment, opened, done⟩, ?_, ?_⟩
    · by_cases last : c = newline <;>
        simp [step, settleAt, delimiter, flush, advance, take, last, Except.map]
    · split <;> exact ⟨rfl, rfl, rfl⟩
  | atom read =>
    refine ⟨{ State.give ⟨left, .atom read, opened, done⟩ (atomValue read.reverse) with
      left := left - 1 }, ?_, rfl, rfl, rfl⟩
    simp [step, settleAt, delimiter, flush, advance, take, give, State.between, blank, Except.map]
  | text start read =>
    refine ⟨⟨left - 1, .text start (c :: read), opened, done⟩, ?_, rfl, rfl, rfl⟩
    simp [step, settleAt, delimiter, flush, advance, take, other, Except.map]
  | escape start read =>
    refine ⟨⟨left - 1, .text start (unescape c :: read), opened, done⟩, ?_, rfl, rfl, rfl⟩
    simp [step, settleAt, delimiter, flush, advance, take, Except.map]

theorem run_blanks {s : Bytes} (blanks : ∀ c ∈ s, isBlank c) (st : State) :
    ∃ next, st.run s = .ok next ∧ Rests st next := by
  induction s generalizing st with
  | nil => exact ⟨st, rfl, rfl, rfl, rfl⟩
  | cons c s ih =>
    obtain ⟨mid, stepped, rests⟩ := step_blank (blanks c (by simp)) st
    obtain ⟨next, ran, later⟩ := ih (fun c member => blanks c (by simp [member])) mid
    exact ⟨next, by rw [run_cons stepped, ran], rests.trans later⟩

theorem run_one (st : State) (c : UInt8) : st.run [c] = st.step c := by
  rw [run]
  cases st.step c <;> rfl

/-- An open string is incomplete; else it depends on what is open around the last token. -/
theorem verdict_eq_ite (st : State) :
    st.verdict =
      if st.inString then .error true else Place.verdict (st.flush.opened, st.flush.done) := by
  obtain ⟨left, mode, opened, done⟩ := st
  cases mode with
  | atom read =>
    simp only [State.verdict, finish, flush, give]
    obtain _ | ⟨_ | _, around⟩ := (settle (atomValue read.reverse) opened done).1 <;> rfl
  | between | comment => obtain _ | ⟨_ | _, around⟩ := opened <;> rfl
  | text | escape => rfl

theorem inString_iff (st : State) :
    st.inString ↔ ∃ dangling left, st.finish = .error ⟨.unclosedString dangling, left⟩ := by
  obtain ⟨left, mode, opened, done⟩ := st
  cases mode with
  | text start read => exact iff_of_true rfl ⟨false, start, rfl⟩
  | escape start read => exact iff_of_true rfl ⟨true, start, rfl⟩
  | between | comment =>
    obtain _ | ⟨_ | _, around⟩ := opened <;> simp [inString, finish, flush]
  | atom read =>
    simp only [inString, finish, flush, give]
    obtain _ | ⟨_ | _, around⟩ := (settle (atomValue read.reverse) opened done).1 <;> simp

theorem Rests.verdict (rests : Rests st st') : st'.verdict = st.verdict := by
  rw [verdict_eq_ite, verdict_eq_ite, rests.inString, rests.opened, rests.done]

/-- A line break ends whatever is being read, strings apart. -/
theorem step_newline (outside : st.inString = false) :
    st.step newline = .ok ⟨st.left - 1, .between, st.flush.opened, st.flush.done⟩ := by
  obtain ⟨left, mode, opened, done⟩ := st
  cases mode with
  | between | comment | atom => rfl
  | text | escape => cases outside

theorem step_newline_inString (inside : st.inString) :
    ∃ start read, st.step newline =
      .ok ⟨st.left - 1, .text start read, st.flush.opened, st.flush.done⟩ := by
  obtain ⟨left, mode, opened, done⟩ := st
  cases mode with
  | between | comment | atom => cases inside
  | text start read => exact ⟨start, newline :: read, rfl⟩
  | escape start read => exact ⟨start, newline :: read, rfl⟩

/-- Where strings are kept only outside of them, white space before a line break is lost. -/
theorem Rests.step_newline (rests : Rests st st') (outside : keep → st.inString = false) :
    Alongside keep (st'.step newline) (st.step newline) := by
  have places : Alike keep st.flush st.flush := .refl st.flush
  cases inside : st.inString with
  | false =>
    rw [State.step_newline inside, State.step_newline (rests.inString.trans inside), rests.opened,
      rests.done]
    exact .ok ⟨.between, places.opened, rfl⟩
  | true =>
    -- the white space went into the string of one of the two
    have lost : keep = false := by
      cases keep with
      | false => rfl
      | true => simp [outside rfl] at inside
    subst lost
    obtain ⟨start, read, stepped⟩ := step_newline_inString inside
    obtain ⟨start', read', stepped'⟩ := step_newline_inString (rests.inString.trans inside)
    rw [stepped, stepped', rests.opened, rests.done]
    exact .ok ⟨.text rfl, places.opened, rfl⟩

end State

theorem Alike.inString (alike : Alike keep st st') : st.inString = st'.inString := by
  have modes := alike.mode
  unfold State.inString
  generalize st.mode = mode, st'.mode = mode' at modes
  cases modes <;> rfl

theorem Alike.verdict (alike : Alike keep st st') :
    st.verdict.map (List.map (Value.spared keep)) =
      st'.verdict.map (List.map (Value.spared keep)) := by
  rw [State.verdict_eq_ite, State.verdict_eq_ite, alike.inString]
  have values := alike.flush.done
  have places := alike.flush.opened
  split
  · rfl
  · generalize st.flush.opened = opened, st'.flush.opened = opened' at places
    cases places with
    | nil => simpa [Place.verdict, Except.map] using values
    | cons first rest => cases first <;> rfl

theorem Alike.verdict_eq (alike : Alike true st st') : st.verdict = st'.verdict := by
  have same := alike.verdict
  rw [Value.spared_true, List.map_id_fun] at same
  generalize st.verdict = x, st'.verdict = y at same
  cases x <;> cases y <;> simp_all [Except.map]

/-! ### Texts -/

/-- The values that are read of a text, or whether more text could complete it. -/
def outcome (src : Bytes) : Except Bool (List Value) := (parse src).mapError ParseError.incomplete

/-- Where the scanner gets on a text; positions are of no interest. -/
def scan (src : Bytes) : Except Stuck State := State.run ⟨0, .between, [], []⟩ src

theorem outcome_eq_verdict (src : Bytes) :
    outcome src = match (State.start src).run src with
      | .ok st => st.verdict
      | .error _ => .error false := by
  unfold outcome parse
  cases ran : (State.start src).run src with
  | error e =>
    have stray := State.fault_of_run ran
    show Except.error (e.place 0 src.length).incomplete = Except.error false
    simp [Stuck.place, ParseError.incomplete, stray]
  | ok st =>
    simp only [State.verdict]
    cases st.finish <;> rfl

theorem scan_start (src : Bytes) : Alongside true ((State.start src).run src) (scan src) := by
  have start : Alike true (State.start src) ⟨0, .between, [], []⟩ := ⟨.between, .nil, rfl⟩
  exact start.run src

theorem outcome_of_scan (src : Bytes) :
    outcome src = match scan src with
      | .ok st => st.verdict
      | .error _ => .error false := by
  have same := scan_start src
  rw [outcome_eq_verdict]
  generalize (State.start src).run src = x, scan src = y at same
  cases same with
  | ok alike => exact alike.verdict_eq
  | error fault => rfl

/-- A string is open at the end of the text. -/
def LeavesString (src : Bytes) : Prop :=
  ∃ position dangling, parse src = .error ⟨position, .unclosedString dangling⟩

theorem leavesString_iff {src : Bytes} :
    LeavesString src ↔ ∃ st, scan src = .ok st ∧ st.inString := by
  have same := scan_start src
  unfold LeavesString parse
  generalize ran : (State.start src).run src = x, scan src = y at same
  cases same with
  | error fault =>
    have stray := State.fault_of_run ran
    simp [Stuck.place, stray]
  | ok alike =>
    rename_i st st'
    simp only [Except.ok.injEq, exists_eq_left']
    rw [← alike.inString, State.inString_iff]
    cases st.finish with
    | ok done => simp
    | error e =>
      obtain ⟨fault, left⟩ := e
      simp [Stuck.place]

/-- Texts that lead to alike states. -/
def Together (keep : Bool) (s t : Bytes) : Prop := Alongside keep (scan s) (scan t)

theorem Together.refl (keep : Bool) (s : Bytes) : Together keep s s := (Alike.refl _).run s

theorem Together.trans {s t u : Bytes} (first : Together keep s t) (second : Together keep t u) :
    Together keep s u := Alongside.trans first second

theorem Together.append {s t : Bytes} (together : Together keep s t) (u : Bytes) :
    Together keep (s ++ u) (t ++ u) := by
  unfold Together scan at together ⊢
  generalize ran : State.run ⟨0, .between, [], []⟩ s = x,
    ran' : State.run ⟨0, .between, [], []⟩ t = y at together
  cases together with
  | ok alike =>
    rw [State.run_append ran, State.run_append ran']
    exact alike.run u
  | error fault =>
    rw [State.run_stuck ran, State.run_stuck ran']
    exact .error fault

theorem Together.outcome {s t : Bytes} (together : Together keep s t) :
    (Reader.outcome s).map (List.map (Value.spared keep)) =
      (Reader.outcome t).map (List.map (Value.spared keep)) := by
  unfold Together at together
  rw [outcome_of_scan, outcome_of_scan]
  generalize scan s = x, scan t = y at together
  cases together with
  | ok alike => exact alike.verdict
  | error => rfl

theorem Together.leavesString {s t : Bytes} (together : Together keep s t) :
    LeavesString s ↔ LeavesString t := by
  rw [leavesString_iff, leavesString_iff]
  unfold Together at together
  generalize scan s = x, scan t = y at together
  cases together with
  | error => simp
  | ok alike => simp [alike.inString]

theorem together_lead {lead : Bytes} (blanks : ∀ c ∈ lead, isBlank c) (s : Bytes) :
    Together keep (lead ++ s) s := by
  have skipped : ∀ n, ∃ left,
      State.run ⟨n, .between, [], []⟩ lead = .ok ⟨left, .between, [], []⟩ := by
    induction lead with
    | nil => exact fun n => ⟨n, rfl⟩
    | cons c lead ih =>
      intro n
      obtain ⟨left, ran⟩ := ih (fun c member => blanks c (by simp [member])) (n - 1)
      refine ⟨left, ?_⟩
      have blank := blanks c (by simp)
      have stepped : State.step ⟨n, .between, [], []⟩ c = .ok ⟨n - 1, .between, [], []⟩ := by
        simp [State.step, State.settleAt, isDelimiter, blank, State.flush, State.advance,
          State.take, State.between, Except.map]
      rw [State.run_cons stepped, ran]
  obtain ⟨left, ran⟩ := skipped 0
  have between : Alike keep ⟨left, .between, [], []⟩ ⟨0, .between, [], []⟩ := ⟨.between, .nil, rfl⟩
  unfold Together scan
  rw [State.run_append ran]
  exact between.run s

/-- White space at its ends does not change what is read of a text. -/
theorem outcome_trimmed {lead tail : Bytes} (s : Bytes) (before : ∀ c ∈ lead, isBlank c)
    (behind : ∀ c ∈ tail, isBlank c) : outcome (lead ++ s ++ tail) = outcome s := by
  have skipped : Together true (lead ++ s) s := together_lead before s
  have whole := outcome_of_scan (lead ++ s ++ tail)
  have part := outcome_of_scan s
  unfold Together scan at skipped
  unfold scan at whole part
  generalize ran : State.run ⟨0, .between, [], []⟩ (lead ++ s) = x,
    ran' : State.run ⟨0, .between, [], []⟩ s = y at skipped part
  cases skipped with
  | ok alike =>
    rename_i st st'
    obtain ⟨next, blanks, rests⟩ := State.run_blanks behind st
    rw [State.run_append ran, blanks] at whole
    rw [whole, part]
    exact rests.verdict.trans alike.verdict_eq
  | error fault =>
    rw [State.run_stuck ran] at whole
    rw [whole, part]

/-- White space at the ends of a text does not change how it goes on after a line break, unless it
belongs to a string there. -/
theorem together_trimmed {lead tail s : Bytes} (before : ∀ c ∈ lead, isBlank c)
    (behind : ∀ c ∈ tail, isBlank c) (outside : keep → tail ≠ [] → ¬ LeavesString s) :
    Together keep (lead ++ s ++ tail ++ [newline]) (s ++ [newline]) := by
  rw [List.append_assoc, List.append_assoc]
  refine (together_lead before _).trans ?_
  -- with no white space at the end, a string that is open there may be kept
  by_cases none : tail = []
  · subst none
    exact .refl keep _
  rw [← List.append_assoc]
  unfold Together
  cases ran : scan s with
  | error e =>
    unfold scan at ran ⊢
    rw [List.append_assoc, State.run_stuck ran, State.run_stuck ran]
    exact .error rfl
  | ok st =>
    obtain ⟨next, blanks, rests⟩ := State.run_blanks behind st
    have broken : Alongside keep (next.step newline) (st.step newline) := by
      refine rests.step_newline fun kept => ?_
      by_contra inside
      exact outside kept none (leavesString_iff.mpr ⟨st, ran, by simpa using inside⟩)
    unfold scan at ran ⊢
    rw [List.append_assoc, State.run_append ran, State.run_append ran, State.run_append blanks,
      State.run_one, State.run_one]
    exact broken

theorem leavesString_trimmed {lead tail s : Bytes} (before : ∀ c ∈ lead, isBlank c)
    (behind : ∀ c ∈ tail, isBlank c) : LeavesString (lead ++ s ++ tail) ↔ LeavesString s := by
  have skipped : Together true (lead ++ (s ++ tail)) (s ++ tail) := together_lead before _
  rw [List.append_assoc, skipped.leavesString, leavesString_iff, leavesString_iff]
  unfold scan
  cases ran : State.run ⟨0, .between, [], []⟩ s with
  | error e => simp [State.run_stuck ran]
  | ok st =>
    obtain ⟨next, blanks, rests⟩ := State.run_blanks behind st
    simp [State.run_append ran, blanks, rests.inString]

end Reader
end ProcLisp
