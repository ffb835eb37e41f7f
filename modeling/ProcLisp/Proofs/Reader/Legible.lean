import ProcLisp.Proofs.Value.Proper
import ProcLisp.Reader.Parse

/-!
# Values that are read

A text is read as ints, booleans, symbols, strings and lists of them, and of symbols only those
that stand for themselves as an atom. Every value that the reader returns is of this form.
-/

namespace ProcLisp

namespace Reader

/-- Bytes that are read as one atom. -/
def IsToken (s : Bytes) : Prop := s ≠ [] ∧ ∀ c ∈ s, isDelimiter c = false

instance (s : Bytes) : Decidable (IsToken s) :=
  decidable_of_iff (s ≠ [] ∧ s.all (!isDelimiter ·)) (by simp [IsToken])

/-- An atom that is neither a number nor a boolean. -/
structure IsName (s : Bytes) : Prop where
  token : IsToken s
  own : atomValue s = .sym s

end Reader

namespace Value

open Reader

inductive Legible : Value → Prop where
  | int (n : Int64) : Legible (.int n)
  | bool (b : Bool) : Legible (.bool b)
  | sym {s : Bytes} (name : IsName s) : Legible (.sym s)
  | str (s : Bytes) : Legible (.str s)
  | list {items : List Value} (each : ∀ v ∈ items, Legible v) : Legible (.list items)

/-- The values of programs: names are as they are read, the keys of a map are in order, and nothing
is bare. -/
inductive WellFormed : Value → Prop where
  | int (n : Int64) : WellFormed (.int n)
  | bool (b : Bool) : WellFormed (.bool b)
  | sym {s : Bytes} (name : IsName s) : WellFormed (.sym s)
  | str (s : Bytes) : WellFormed (.str s)
  | list {items : List Value} (each : ∀ v ∈ items, WellFormed v) : WellFormed (.list items)
  | map {entries : Dict Bytes Value} (ordered : Dict.Ordered entries)
      (names : ∀ k v, (k, v) ∈ entries → IsName k)
      (each : ∀ k v, (k, v) ∈ entries → WellFormed v) : WellFormed (.map entries)
  | lambda {tag : Tag} {params : List Bytes} {body : Value} {env : Env}
      (names : ∀ s ∈ params, IsName s) : WellFormed (.lambda tag params body env)
  | pid (p : Pid) : WellFormed (.pid p)
  | error {kind : Bytes} {payload : Value} (name : IsName kind) (inner : WellFormed payload) :
      WellFormed (.error kind payload)

theorem Legible.wellFormed {v : Value} (legible : Legible v) : WellFormed v := by
  induction legible with
  | int n => exact .int n
  | bool b => exact .bool b
  | sym name => exact .sym name
  | str s => exact .str s
  | list _ ih => exact .list ih

/-- A legible value is equal to nothing but itself, bare values apart. -/
theorem eq_of_equal {v w : Value} (legible : Legible v) (formed : WellFormed w)
    (same : v.equal w) : v = w := by
  induction legible generalizing w with
  | list _ ih =>
    cases formed with
    | list others =>
      rw [equal] at same
      rw [eq_of_equalItems (fun x first y second => ih x first (others y second)) same]
    | _ => simp [equal] at same
  | _ => cases formed <;> simp_all [equal]

theorem WellFormed.proper {v : Value} (formed : WellFormed v) : Proper v := by
  induction formed with
  | int n => exact .int n
  | bool b => exact .bool b
  | sym => exact .sym _
  | str s => exact .str s
  | list _ ih => exact .list ih
  | map ordered _ _ ih => exact .map ordered ih
  | lambda => exact .lambda _ _ _ _
  | pid p => exact .pid p
  | error _ inner ih => exact .error (by rintro rfl; cases inner) ih

theorem equal_iff_eq {v w : Value} (legible : Legible v) (formed : WellFormed w) :
    v.equal w ↔ v = w := by
  refine ⟨eq_of_equal legible formed, ?_⟩
  rintro rfl
  exact formed.proper.equal_self

end Value

/-! ### The reader returns legible values -/

namespace Reader

open Value (Legible)

theorem legible_atomValue {s : Bytes} (token : IsToken s) : Legible (atomValue s) := by
  unfold atomValue
  split
  · exact .bool true
  split
  · exact .bool false
  split
  · exact .int _
  · rename_i notTrue notFalse _ notInt
    refine .sym ⟨token, ?_⟩
    rw [atomValue, if_neg notTrue, if_neg notFalse, notInt]

theorem isName_quote : IsName (ascii "quote") := ⟨by decide, by rfl⟩

theorem legible_quoted {v : Value} (legible : Legible v) : Legible (quoted v) := by
  refine .list fun w member => ?_
  simp only [List.mem_cons, List.not_mem_nil, or_false] at member
  rcases member with rfl | rfl
  · exact .sym isName_quote
  · exact legible

def Opened.Legible : Opened → Prop
  | .list _ items => ∀ v ∈ items, v.Legible
  | .quote => True

def Mode.Legible : Mode → Prop
  | .atom read => IsToken read.reverse
  | _ => True

/-- Everything read so far is legible. -/
structure State.Legible (st : State) : Prop where
  mode : st.mode.Legible
  opened : ∀ o ∈ st.opened, o.Legible
  done : ∀ v ∈ st.done, v.Legible

theorem legible_settle {v : Value} (legible : v.Legible) {opened : List Opened} {done : List Value}
    (around : ∀ o ∈ opened, o.Legible) (before : ∀ v ∈ done, v.Legible) :
    (∀ o ∈ (settle v opened done).1, o.Legible) ∧ ∀ w ∈ (settle v opened done).2, w.Legible := by
  fun_induction settle v opened done with
  | case1 v done =>
    refine ⟨by simp, fun w member => ?_⟩
    rcases List.mem_cons.mp member with rfl | old
    · exact legible
    · exact before w old
  | case2 v rest done ih =>
    exact ih (legible_quoted legible) (fun o member => around o (by simp [member])) before
  | case3 v left items rest done =>
    refine ⟨fun o member => ?_, before⟩
    rcases List.mem_cons.mp member with rfl | old
    · intro w among
      rcases List.mem_cons.mp among with rfl | old
      · exact legible
      · exact around _ (List.mem_cons_self ..) w old
    · exact around o (by simp [old])

namespace State

variable {st next : State}

theorem Legible.give (good : st.Legible) {v : Value} (legible : v.Legible) :
    (st.give v).Legible := by
  obtain ⟨opened, done⟩ := legible_settle legible good.opened good.done
  exact ⟨trivial, opened, done⟩

theorem Legible.flush (good : st.Legible) : st.flush.Legible := by
  unfold State.flush
  split
  · rename_i read inAtom
    have token := good.mode
    rw [inAtom] at token
    exact good.give (legible_atomValue token)
  · exact good

theorem Legible.settleAt (good : st.Legible) (c : UInt8) : (st.settleAt c).Legible := by
  unfold State.settleAt
  split
  · exact good.flush
  · exact good

theorem flush_mode_ne_atom (st : State) (read : Bytes) : st.flush.mode ≠ .atom read := by
  unfold flush
  split
  · simp [give]
  · rename_i other
    exact other read

theorem isDelimiter_of_settleAt {c : UInt8} {read : Bytes}
    (inAtom : (st.settleAt c).mode = .atom read) : isDelimiter c = false := by
  unfold settleAt at inAtom
  split at inAtom
  · exact absurd inAtom (flush_mode_ne_atom st read)
  · simpa using ‹¬ isDelimiter c = true›

theorem Legible.between (good : st.Legible) (c : UInt8) (ok : st.between c = .ok next) :
    next.Legible := by
  unfold State.between at ok
  split at ok
  · obtain rfl := Except.ok.inj ok
    exact good
  split at ok
  · obtain rfl := Except.ok.inj ok
    exact ⟨trivial, good.opened, good.done⟩
  split at ok
  · obtain rfl := Except.ok.inj ok
    refine ⟨good.mode, fun o member => ?_, good.done⟩
    rcases List.mem_cons.mp member with rfl | old
    · simp [Opened.Legible]
    · exact good.opened o old
  split at ok
  · split at ok
    · rename_i left items rest around
      obtain rfl := Except.ok.inj ok
      have outer : ∀ o ∈ rest, o.Legible := fun o member => good.opened o (by simp [around, member])
      have inner : ∀ v ∈ items, v.Legible := good.opened (.list left items) (by simp [around])
      have rest : State.Legible { st with opened := rest } := ⟨good.mode, outer, good.done⟩
      exact rest.give (.list fun v member => inner v (List.mem_reverse.mp member))
    · cases ok
  split at ok
  · obtain rfl := Except.ok.inj ok
    refine ⟨good.mode, fun o member => ?_, good.done⟩
    rcases List.mem_cons.mp member with rfl | old
    · trivial
    · exact good.opened o old
  split at ok
  · obtain rfl := Except.ok.inj ok
    exact ⟨trivial, good.opened, good.done⟩
  · obtain rfl := Except.ok.inj ok
    refine ⟨?_, good.opened, good.done⟩
    simp_all [Mode.Legible, IsToken, isDelimiter]

theorem Legible.take (good : st.Legible) {c : UInt8}
    (inside : ∀ read, st.mode = .atom read → isDelimiter c = false) (ok : st.take c = .ok next) :
    next.Legible := by
  unfold State.take at ok
  split at ok
  · exact good.between c ok
  · obtain rfl := Except.ok.inj ok
    split
    · exact ⟨trivial, good.opened, good.done⟩
    · exact good
  · rename_i read inAtom
    obtain rfl := Except.ok.inj ok
    have token := good.mode
    rw [inAtom] at token
    refine ⟨⟨by simp, fun d member => ?_⟩, good.opened, good.done⟩
    rw [List.reverse_cons, List.mem_append, List.mem_singleton] at member
    rcases member with old | rfl
    · exact token.2 d old
    · exact inside read inAtom
  · split at ok
    · obtain rfl := Except.ok.inj ok
      exact ⟨trivial, good.opened, good.done⟩
    split at ok
    · obtain rfl := Except.ok.inj ok
      exact good.give (.str _)
    · obtain rfl := Except.ok.inj ok
      exact ⟨trivial, good.opened, good.done⟩
  · obtain rfl := Except.ok.inj ok
    exact ⟨trivial, good.opened, good.done⟩

theorem Legible.step (good : st.Legible) {c : UInt8} (ok : st.step c = .ok next) :
    next.Legible := by
  unfold State.step State.advance at ok
  cases taken : (st.settleAt c).take c with
  | error e => simp [taken, Except.map] at ok
  | ok mid =>
    rw [taken] at ok
    obtain rfl := Except.ok.inj ok
    have kept := (good.settleAt c).take (fun read => isDelimiter_of_settleAt) taken
    exact ⟨kept.mode, kept.opened, kept.done⟩

theorem Legible.run {s : Bytes} (good : st.Legible) (ok : st.run s = .ok next) :
    next.Legible := by
  induction s generalizing st with
  | nil =>
    obtain rfl := Except.ok.inj ok
    exact good
  | cons c s ih =>
    rw [State.run] at ok
    cases stepped : st.step c with
    | error e => simp [stepped] at ok
    | ok mid =>
      rw [stepped] at ok
      exact ih (good.step stepped) ok

theorem Legible.finish {vs : List Value} (good : st.Legible) (ok : st.finish = .ok vs) :
    ∀ v ∈ vs, v.Legible := by
  simp only [State.finish] at ok
  split at ok
  · cases ok
  · cases ok
  split at ok
  · cases ok
  · cases ok
  · obtain rfl := Except.ok.inj ok
    exact good.flush.done

end State

theorem legible_of_parse {src : Bytes} {vs : List Value} (ok : parse src = .ok vs) :
    ∀ v ∈ vs, v.Legible := by
  unfold parse at ok
  split at ok
  · cases ok
  split at ok
  · cases ok
  · rename_i _ _ ran _ _ finished
    obtain rfl := Except.ok.inj ok
    have good : (State.start src).Legible := ⟨trivial, by simp [State.start], by simp [State.start]⟩
    intro v member
    exact (good.run ran).finish finished v (List.mem_reverse.mp member)

theorem parseOne_eq_ok {src : Bytes} {v : Value} : parseOne src = .ok v ↔ parse src = .ok [v] := by
  unfold parseOne
  split
  · simp [*]
  · simp [*]
  · rename_i vs several parsed
    rw [parsed]
    constructor
    · simp
    · intro one
      exact absurd (Except.ok.inj one) (several v)

theorem legible_of_parseOne {src : Bytes} {v : Value} (ok : parseOne src = .ok v) : v.Legible :=
  legible_of_parse (parseOne_eq_ok.mp ok) v (by simp)

end Reader
end ProcLisp
