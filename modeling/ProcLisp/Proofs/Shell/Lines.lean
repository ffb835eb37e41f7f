import ProcLisp.Proofs.Reader.Breaks
import ProcLisp.Shell.Repl
import Mathlib.Data.List.Infix
import Mathlib.Data.List.TakeWhile

/-!
# Entering a program line by line

What is pending drifts from what was typed: it is trimmed with every line. Outside of strings this
does not show. So a program that is entered line by line is evaluated as it would be if it were read
whole, except for the white space that a string loses where a line ends in it.
-/

namespace ProcLisp

open Reader

namespace Text

def IsAscii (s : List Char) : Prop := ∀ c ∈ s, c.toNat < 0x80

instance (s : List Char) : Decidable (IsAscii s) := List.decidableBAll _ s

theorem IsAscii.append {s t : List Char} (first : IsAscii s) (second : IsAscii t) :
    IsAscii (s ++ t) := by
  intro c member
  rcases List.mem_append.mp member with left | right
  · exact first c left
  · exact second c right

theorem isAscii_newline : IsAscii ['\n'] := by simp [IsAscii]

theorem utf8_append (s t : List Char) : utf8 (s ++ t) = utf8 s ++ utf8 t := List.flatMap_append

/-- The part of a text that is left by trimming, with what was around it. -/
theorem exists_trim (s : List Char) :
    ∃ lead tail, s = lead ++ trim s ++ tail ∧ (∀ c ∈ lead, isSpace c) ∧ ∀ c ∈ tail, isSpace c := by
  have front : s.takeWhile isSpace ++ s.dropWhile isSpace = s := List.takeWhile_append_dropWhile
  have back : (s.dropWhile isSpace).reverse.takeWhile isSpace ++
      (s.dropWhile isSpace).reverse.dropWhile isSpace = (s.dropWhile isSpace).reverse :=
    List.takeWhile_append_dropWhile
  refine ⟨s.takeWhile isSpace, ((s.dropWhile isSpace).reverse.takeWhile isSpace).reverse, ?_,
    fun c member => List.mem_takeWhile_imp member, ?_⟩
  · unfold trim
    rw [List.append_assoc, ← List.reverse_append, back, List.reverse_reverse, front]
  · intro c member
    exact List.mem_takeWhile_imp (List.mem_reverse.mp member)

/-- The reader takes for white space what trimming does, as far as ASCII goes. -/
theorem isBlank_utf8 {s : List Char} (ascii : IsAscii s) (spaces : ∀ c ∈ s, isSpace c) :
    ∀ b ∈ utf8 s, isBlank b := by
  have table : ∀ n < 0x80, isSpace (Char.ofNat n) → isBlank n.toUInt8 := by decide
  intro b member
  obtain ⟨c, inside, coded⟩ := List.mem_flatMap.mp member
  have small := ascii c inside
  rw [Utf8.encode, if_pos small, List.mem_singleton] at coded
  subst coded
  refine table c.toNat small ?_
  rw [Char.ofNat_toNat]
  exact spaces c inside

end Text

open Text

namespace Reader

theorem outcome_eq_ok {src : Bytes} {vs : List Value} :
    outcome src = .ok vs ↔ parse src = .ok vs := mapError_eq_ok

theorem outcome_eq_error {src : Bytes} {more : Bool} :
    outcome src = .error more ↔ ∃ e, parse src = .error e ∧ e.incomplete = more :=
  mapError_eq_error

theorem outcome_trim {s : List Char} (ascii : IsAscii s) :
    outcome (utf8 (trim s)) = outcome (utf8 s) := by
  obtain ⟨lead, tail, same, before, behind⟩ := exists_trim s
  have parts : IsAscii (lead ++ trim s ++ tail) := same ▸ ascii
  have blank := isBlank_utf8 (fun c member => parts c (by simp [member])) before
  have blank' := isBlank_utf8 (fun c member => parts c (by simp [member])) behind
  conv_rhs => rw [same, utf8_append, utf8_append]
  exact (outcome_trimmed _ blank blank').symm

theorem together_trim {keep : Bool} {s : List Char} (ascii : IsAscii s)
    (outside : keep → LeavesString (utf8 s) → ∀ c ∈ s.getLast?, ¬ isSpace c) :
    Together keep (utf8 s ++ [newline]) (utf8 (trim s) ++ [newline]) := by
  obtain ⟨lead, tail, same, before, behind⟩ := exists_trim s
  have parts : IsAscii (lead ++ trim s ++ tail) := same ▸ ascii
  have blank := isBlank_utf8 (fun c member => parts c (by simp [member])) before
  have blank' := isBlank_utf8 (fun c member => parts c (by simp [member])) behind
  conv =>
    arg 2
    rw [same, utf8_append, utf8_append]
  refine together_trimmed blank blank' fun kept some leaves => ?_
  have trailing : tail ≠ [] := by
    rintro rfl
    exact some rfl
  obtain ⟨c, last⟩ := Option.isSome_iff_exists.mp (List.getLast?_isSome.mpr trailing)
  have space := behind c (List.mem_of_getLast? last)
  refine outside kept ?_ c ?_ space
  · rw [same, utf8_append, utf8_append]
    exact (leavesString_trimmed blank blank').mpr leaves
  · rw [same, List.getLast?_append, last]
    rfl

end Reader

namespace Shell.Repl

/-- The program that an action starts to evaluate, and its environment. -/
def Action.evaluation? : Action → Option (List Value × Env)
  | .evaluate exprs env => some (exprs, env)
  | _ => none

/-- Submits a line: the state after it and the evaluations that are started. -/
def enter (r : Repl) (line : LineEditor) : Repl × List (List Value × Env) :=
  let (next, actions) := ({ r with line } : Repl).update (.key .enter)
  (next, actions.filterMap Action.evaluation?)

/-- What is started with each of the lines. -/
def enterAll (r : Repl) : List LineEditor → List (List (List Value × Env))
  | [] => []
  | line :: lines => (r.enter line).2 :: (r.enter line).1.enterAll lines

def joined (lines : List LineEditor) : List Char := ['\n'].intercalate (lines.map LineEditor.text)

/-- What is taken for a command, not for a program. -/
def commands : List (List Char) := ["exit".toList, "quit".toList, ":ps".toList]

/-- No line but the last ends in white space that belongs to a string. -/
def KeepsStrings (lines : List LineEditor) : Prop :=
  ∀ first rest, first ++ rest = lines → first ≠ [] → rest ≠ [] →
    LeavesString (utf8 (joined first)) → ∀ c ∈ (joined first).getLast?, ¬ isSpace c

theorem joined_concat {lines : List LineEditor} (some : lines ≠ []) (line : LineEditor) :
    joined (lines ++ [line]) = joined lines ++ '\n' :: line.text := by
  unfold joined
  induction lines with
  | nil => exact absurd rfl some
  | cons first rest ih =>
    cases rest with
    | nil => simp [List.intercalate]
    | cons second rest =>
      have later := ih (by simp)
      simp only [List.map_cons, List.cons_append, List.intercalate_cons_cons] at later ⊢
      rw [later]
      simp

variable {keep : Bool} {r : Repl} {line : LineEditor} {vs : List Value}

theorem submit_incomplete (r : Repl) (more : outcome (utf8 r.source) = .error true) :
    r.submit.1 = { r with line := {}, pending := r.source } ∧
      r.submit.2.filterMap Action.evaluation? = [] := by
  obtain ⟨e, failed, incomplete⟩ := outcome_eq_error.mp more
  have other : ∀ s ∈ [] :: commands, r.source ≠ s := by
    intro s known same
    have complete : ∀ s ∈ [] :: commands, (parse (utf8 s)).isOk := by decide
    have read := complete s known
    rw [← same, failed] at read
    cases read
  simp only [commands, List.forall_mem_cons] at other
  obtain ⟨nonempty, notExit, notQuit, notPs, -⟩ := other
  unfold submit
  simp only [List.isEmpty_iff, nonempty, notExit, notQuit, notPs, or_self, if_false, failed,
    incomplete, if_true]
  refine ⟨trivial, rfl⟩

theorem submit_complete (r : Repl) (whole : outcome (utf8 r.source) = .ok vs) (some : vs ≠ [])
    (program : r.source ∉ commands) :
    r.submit.2.filterMap Action.evaluation? = [(vs, r.env)] := by
  have read := outcome_eq_ok.mp whole
  have nonempty : r.source ≠ [] := by
    intro none
    rw [none] at read
    exact some (Except.ok.inj read).symm
  simp only [commands, List.mem_cons, List.not_mem_nil, or_false, not_or] at program
  obtain ⟨notExit, notQuit, notPs⟩ := program
  unfold submit
  simp only [List.isEmpty_iff, nonempty, notExit, notQuit, notPs, or_self, if_false, read]
  rfl

theorem enter_eq (idle : r.running = false) (line : LineEditor) :
    r.enter line = (({ r with line } : Repl).submit.1,
      ({ r with line } : Repl).submit.2.filterMap Action.evaluation?) := by
  unfold enter update press
  simp [idle]

/-- Waits for more after `text`. Strings may have changed if they are not kept. -/
structure Awaits (keep : Bool) (text : List Char) (env : Env) (r : Repl) : Prop where
  idle : r.running = false
  env : r.env = env
  incomplete : outcome (utf8 r.pending) = .error true
  ascii : IsAscii r.pending
  together : Together keep (utf8 text ++ [newline]) (utf8 r.pending ++ [newline])

/-- A line that leaves the source incomplete. -/
theorem enter_awaits {text src : List Char} (idle : r.running = false)
    (source : ({ r with line } : Repl).source = trim src) (ascii : IsAscii src)
    (together : Together keep (utf8 text) (utf8 src)) (more : outcome (utf8 src) = .error true)
    (outside : keep → LeavesString (utf8 src) → ∀ c ∈ src.getLast?, ¬ isSpace c) :
    (r.enter line).2 = [] ∧ Awaits keep text r.env (r.enter line).1 := by
  rw [← outcome_trim ascii] at more
  obtain ⟨next, started⟩ := submit_incomplete { r with line } (by rw [source, more])
  rw [enter_eq idle, next, source]
  have part : IsAscii (trim src) := by
    obtain ⟨lead, tail, same, -, -⟩ := exists_trim src
    rw [same] at ascii
    intro c member
    exact ascii c (by simp [member])
  refine ⟨started, idle, rfl, more, part, ?_⟩
  exact (together.append [newline]).trans (together_trim ascii outside)

theorem utf8_break (s t : List Char) : utf8 (s ++ '\n' :: t) = utf8 s ++ [newline] ++ utf8 t := by
  rw [utf8_append, List.append_assoc]
  rfl

namespace Awaits

variable {text : List Char} {env : Env}

theorem source (waits : Awaits keep text env r) (line : LineEditor) :
    ({ r with line } : Repl).source = trim (r.pending ++ '\n' :: line.text) := by
  have some : r.pending ≠ [] := by
    intro none
    have incomplete := waits.incomplete
    rw [none] at incomplete
    cases incomplete
  simp [Repl.source, some]

theorem ascii_break (waits : Awaits keep text env r) (ascii : IsAscii line.text) :
    IsAscii (r.pending ++ '\n' :: line.text) :=
  waits.ascii.append (isAscii_newline.append ascii)

theorem together_break (waits : Awaits keep text env r) (line : LineEditor) :
    Together keep (utf8 (text ++ '\n' :: line.text)) (utf8 (r.pending ++ '\n' :: line.text)) := by
  rw [utf8_break, utf8_break]
  exact waits.together.append _

theorem enter (waits : Awaits keep text env r) (ascii : IsAscii line.text)
    (more : outcome (utf8 (text ++ '\n' :: line.text)) = .error true)
    (outside : keep → LeavesString (utf8 (text ++ '\n' :: line.text)) →
      ∀ c ∈ (text ++ '\n' :: line.text).getLast?, ¬ isSpace c) :
    (r.enter line).2 = [] ∧ Awaits keep (text ++ '\n' :: line.text) env (r.enter line).1 := by
  have together := waits.together_break line
  rw [← waits.env]
  refine enter_awaits waits.idle (waits.source line) (waits.ascii_break ascii) together ?_ ?_
  · have same := together.outcome
    rw [more] at same
    generalize outcome (utf8 (r.pending ++ '\n' :: line.text)) = x at same
    cases x with
    | error => simpa [Except.map] using same.symm
    | ok => cases same
  · intro kept leaves
    have last := outside kept (together.leavesString.mpr leaves)
    rw [List.getLast?_append_cons] at last ⊢
    exact last

/-- The beginnings of a command are complete, so what is pending is none. -/
theorem not_command (waits : Awaits keep text env r) (ascii : IsAscii line.text) :
    ({ r with line } : Repl).source ∉ commands := by
  intro command
  rw [waits.source line] at command
  obtain ⟨lead, tail, same, before, behind⟩ := exists_trim (r.pending ++ '\n' :: line.text)
  have whole := waits.ascii_break ascii
  rw [same] at whole
  -- what is pending is a beginning of the command, and white space around that
  have part := congrArg (List.take r.pending.length) same
  generalize trim (r.pending ++ '\n' :: line.text) = word at command whole part
  rw [List.take_left, List.take_append, List.take_append] at part
  generalize r.pending.length = n at part
  generalize n - lead.length = m, n - (lead ++ word).length = k at part
  have blank : ∀ b ∈ utf8 (lead.take n), isBlank b :=
    isBlank_utf8 (fun c member => whole c (by simp [List.mem_of_mem_take member]))
      fun c member => before c (List.mem_of_mem_take member)
  have blank' : ∀ b ∈ utf8 (tail.take k), isBlank b :=
    isBlank_utf8 (fun c member => whole c (by simp [List.mem_of_mem_take member]))
      fun c member => behind c (List.mem_of_mem_take member)
  have incomplete := waits.incomplete
  rw [part, utf8_append, utf8_append, outcome_trimmed _ blank blank'] at incomplete
  obtain ⟨e, failed, -⟩ := outcome_eq_error.mp incomplete
  have complete : ∀ word ∈ commands, ∀ s ∈ word.inits, (parse (utf8 s)).isOk := by decide
  have read := complete word command _ ((List.mem_inits _ _).mpr (List.take_prefix m word))
  rw [failed] at read
  cases read

/-- A line that completes the text. -/
theorem complete (waits : Awaits keep text env r) (ascii : IsAscii line.text)
    (whole : outcome (utf8 (text ++ '\n' :: line.text)) = .ok vs) (some : vs ≠ []) :
    ∃ read, (r.enter line).2 = [(read, env)] ∧
      read.map (Value.spared keep) = vs.map (Value.spared keep) := by
  have same := (waits.together_break line).outcome
  rw [whole, ← outcome_trim (waits.ascii_break ascii), ← waits.source line] at same
  generalize read : outcome (utf8 ({ r with line } : Repl).source) = x at same
  cases x with
  | error => cases same
  | ok us =>
    have values : us.map (Value.spared keep) = vs.map (Value.spared keep) :=
      (Except.ok.inj same).symm
    have some' : us ≠ [] := by
      rintro rfl
      exact some (List.map_eq_nil_iff.mp values.symm)
    refine ⟨us, ?_, values⟩
    rw [enter_eq waits.idle, submit_complete _ read some' (waits.not_command ascii)]
    exact congrArg (fun env => [(us, env)]) waits.env

end Awaits

/-- Nothing is started with the lines up to the last, and one evaluation with that. -/
def Starts (r : Repl) (lines : List LineEditor) (vs : List Value) : Prop :=
  r.enterAll lines = List.replicate (lines.length - 1) [] ++ [[(vs, r.env)]]

theorem Starts.cons {rest : List LineEditor} (started : Starts (r.enter line).1 rest vs)
    (some : rest ≠ []) (none : (r.enter line).2 = []) (kept : (r.enter line).1.env = r.env) :
    Starts r (line :: rest) vs := by
  unfold Starts at started ⊢
  rw [enterAll, none, started, kept]
  obtain ⟨second, rest, rfl⟩ := List.exists_cons_of_ne_nil some
  rfl

variable {lines first rest : List LineEditor}

/-- The lines that follow a beginning. -/
theorem Awaits.starts {env : Env} (waits : Awaits keep (joined first) env r)
    (split : first ++ rest = lines) (some : first ≠ []) (last : rest ≠ [])
    (ascii : ∀ line ∈ lines, IsAscii line.text)
    (more : ∀ first rest, first ++ rest = lines → first ≠ [] → rest ≠ [] →
      outcome (utf8 (joined first)) = .error true)
    (outside : keep → KeepsStrings lines)
    (whole : outcome (utf8 (joined lines)) = .ok vs) (program : vs ≠ []) :
    ∃ read, Starts r rest read ∧
      read.map (Value.spared keep) = vs.map (Value.spared keep) := by
  induction rest generalizing first r with
  | nil => exact absurd rfl last
  | cons line rest ih =>
    have longer : (first ++ [line]) ++ rest = lines := by rw [List.append_assoc]; exact split
    have text := joined_concat some line
    have ascii' : IsAscii line.text := ascii line (by simp [← split])
    by_cases final : rest = []
    · subst final
      rw [List.append_nil] at longer
      rw [← longer, text] at whole
      obtain ⟨read, started, same⟩ := waits.complete ascii' whole program
      refine ⟨read, ?_, same⟩
      unfold Starts enterAll
      rw [started, waits.env]
      rfl
    · have incomplete := more _ rest longer (by simp) final
      have strings := fun kept => outside kept _ rest longer (by simp) final
      rw [text] at incomplete strings
      obtain ⟨none, next⟩ := waits.enter ascii' incomplete strings
      rw [← text] at next
      obtain ⟨read, started, same⟩ := ih next longer (by simp) final
      exact ⟨read, started.cons final none (next.env.trans waits.env.symm), same⟩

theorem starts_spared (keep : Bool) (none : r.pending = []) (idle : r.running = false)
    (ascii : ∀ line ∈ lines, IsAscii line.text)
    (more : ∀ first rest, first ++ rest = lines → first ≠ [] → rest ≠ [] →
      outcome (utf8 (joined first)) = .error true)
    (outside : keep → KeepsStrings lines)
    (whole : outcome (utf8 (joined lines)) = .ok vs) (some : vs ≠ [])
    (program : trim (joined lines) ∉ commands) :
    ∃ read, Starts r lines read ∧
      read.map (Value.spared keep) = vs.map (Value.spared keep) := by
  cases lines with
  | nil =>
    have empty : outcome (utf8 (joined [])) = .ok [] := rfl
    rw [empty] at whole
    exact absurd (Except.ok.inj whole).symm some
  | cons line rest =>
    have ascii' : IsAscii line.text := ascii line (by simp)
    have source : ({ r with line } : Repl).source = trim line.text := by simp [Repl.source, none]
    have alone : joined [line] = line.text := by simp [joined, List.intercalate]
    by_cases final : rest = []
    · subst final
      rw [alone] at whole program
      refine ⟨vs, ?_, rfl⟩
      rw [← outcome_trim ascii', ← source] at whole
      rw [← source] at program
      unfold Starts enterAll
      rw [enter_eq idle, submit_complete _ whole some program]
      rfl
    · have incomplete := more [line] rest rfl (by simp) final
      have strings := fun kept => outside kept [line] rest rfl (by simp) final
      rw [alone] at incomplete strings
      obtain ⟨nothing, waits⟩ :=
        enter_awaits idle source ascii' (.refl keep _) incomplete strings
      rw [← alone] at waits
      obtain ⟨read, started, same⟩ :=
        waits.starts rfl (by simp) final ascii more outside whole some
      exact ⟨read, started.cons final nothing waits.env, same⟩

/-- A program that is entered line by line is evaluated once, with the last line, and as it is read
whole, up to what is in its strings. These are the same as well if no line before the last ends in
white space within a string. -/
theorem lines_start (none : r.pending = []) (idle : r.running = false)
    (ascii : ∀ line ∈ lines, IsAscii line.text)
    (more : ∀ first rest, first ++ rest = lines → first ≠ [] → rest ≠ [] →
      ∃ e, parse (utf8 (joined first)) = .error e ∧ e.incomplete)
    (whole : parse (utf8 (joined lines)) = .ok vs) (some : vs ≠ [])
    (program : trim (joined lines) ∉ commands) :
    ∃ read, Starts r lines read ∧ read.map Value.outline = vs.map Value.outline ∧
      (KeepsStrings lines → read = vs) := by
  rw [← outcome_eq_ok] at whole
  have more' := fun first rest split some last =>
    outcome_eq_error.mpr (more first rest split some last)
  -- the evaluation that is found where strings are kept is the one that is started anyway
  obtain ⟨read, started, same⟩ :=
    starts_spared false none idle ascii more' nofun whole some program
  refine ⟨read, started, same, fun strings => ?_⟩
  obtain ⟨read', started', same'⟩ :=
    starts_spared true none idle ascii more' (fun _ => strings) whole some program
  rw [Value.spared_true, List.map_id_fun] at same'
  have both := started.symm.trans started'
  simp only [List.append_cancel_left_eq, List.cons.injEq, Prod.mk.injEq, and_true] at both
  exact both.trans same'

/-- A line as it is after `text` was typed. -/
def typed (text : String) : LineEditor := LineEditor.type {} text.toList

/-- The first line ends in a space and the second within a string. -/
theorem lines_start_open_string :
    Starts {} [typed "(list ", typed "\"a", typed "b\")"]
      [.list [.sym (ascii "list"), .str (ascii "a\nb")]] := by
  have plain : ∀ line ∈ [typed "(list ", typed "\"a", typed "b\")"],
      IsAscii line.text := by decide
  have beginnings : ∀ first rest, first ++ rest = [typed "(list ", typed "\"a", typed "b\")"] →
      first ≠ [] → rest ≠ [] →
      first = [typed "(list "] ∨ first = [typed "(list ", typed "\"a"] := by
    intro first rest split some last
    obtain _ | ⟨a, _ | ⟨b, _ | ⟨c, first⟩⟩⟩ := first <;> simp_all
  have read : parse (utf8 (joined [typed "(list ", typed "\"a", typed "b\")"])) =
      .ok [.list [.sym (ascii "list"), .str (ascii "a\nb")]] := rfl
  obtain ⟨read, started, -, same⟩ := lines_start (r := {}) rfl rfl plain
    (fun first rest split some last => by
      rcases beginnings first rest split some last with rfl | rfl
      · exact ⟨⟨0, .unclosedList⟩, rfl, rfl⟩
      · exact ⟨⟨7, .unclosedString false⟩, rfl, rfl⟩) read (List.cons_ne_nil _ _) (by decide)
  have strings : KeepsStrings [typed "(list ", typed "\"a", typed "b\")"] := by
    intro first rest split some last leaves
    rcases beginnings first rest split some last with rfl | rfl
    · obtain ⟨position, dangling, unclosed⟩ := leaves
      exact absurd (congrArg (Except.mapError ParseError.fault) unclosed) nofun
    · have last : (joined [typed "(list ", typed "\"a"]).getLast? = Option.some 'a' := rfl
      rw [last]
      rintro c ⟨⟩
      decide
  rw [same strings] at started
  exact started

/-- The space that ends the first line is missing from the string. -/
theorem string_loses_space_at_line_end :
    ∃ lines vs, (∀ line ∈ lines, IsAscii line.text) ∧
      (∀ first rest, first ++ rest = lines → first ≠ [] → rest ≠ [] →
        ∃ e, parse (utf8 (joined first)) = .error e ∧ e.incomplete) ∧
      parse (utf8 (joined lines)) = .ok vs ∧ vs ≠ [] ∧ joined lines ∉ commands ∧
      trim (joined lines) ∉ commands ∧ ¬ Starts {} lines vs := by
  refine ⟨[typed "\"a ", typed "b\""], [.str (ascii "a \nb")], by decide, ?_, rfl,
    List.cons_ne_nil _ _, by decide, by decide, ?_⟩
  · intro first rest split some last
    obtain _ | ⟨a, _ | ⟨b, first⟩⟩ := first
    · exact absurd rfl some
    · obtain ⟨rfl, -⟩ := List.cons.inj split
      exact ⟨⟨0, .unclosedString false⟩, rfl, rfl⟩
    · simp_all
  · intro started
    have lost : Starts {} [typed "\"a ", typed "b\""] [.str (ascii "a\nb")] := rfl
    have same := lost.symm.trans started
    simp only [List.append_cancel_left_eq, List.cons.injEq, Prod.mk.injEq, Value.str.injEq] at same
    exact absurd same.1.1.1.1 (by decide)

end Shell.Repl
end ProcLisp
