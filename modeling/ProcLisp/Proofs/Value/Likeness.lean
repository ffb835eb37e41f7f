import Mathlib.Data.List.Forall2
import ProcLisp.Machine.Form
import ProcLisp.Proofs.Env

/-!
# Values that look alike

Two runs may differ in what no program can tell: in bindings of names that no code in them mentions.
Values are alike if they differ only there, deep within the environments of lambdas. They have the
same kind and printed form, and they are equal to the same values.

Where nothing is left out, likeness to itself is a property of a value and of all that it is made
of.
-/

namespace ProcLisp

/-- What code may mention, what it may bind, and what else is known of the environments that the
lambdas, or the current expressions, of two runs have. -/
structure Likeness where
  /-- The symbols in code. Environments agree on them. -/
  word : Bytes → Prop
  binds : Bytes → Prop
  /-- The kinds of values without data. -/
  bare : Bytes → Prop
  captured : Env → Env → Prop
  current : Env → Env → Prop
  binds_of_word : ∀ {s}, word s → isReserved s = false → binds s
  captured_of_current : ∀ {e e'}, current e e' → captured e e'
  current_bind : ∀ {e e' s} (v w : Value), binds s → current e e' →
    current (e.bind s v) (e'.bind s w)
  current_merge : ∀ {e e' c c'}, Dict.Ordered c → Dict.Ordered c' → current e e' →
    captured c c' → current (e.merge c) (e'.merge c')

namespace Likeness

/-- Alike as data or as code. A symbol that is no word may occur in data only, and a block of several
expressions starts with a symbol that is never looked up. -/
inductive Alike (L : Likeness) : (code : Bool) → Value → Value → Prop where
  | int {c} (n : Int64) : Alike L c (.int n) (.int n)
  | bool {c} (b : Bool) : Alike L c (.bool b) (.bool b)
  | sym {c} {s : Bytes} (seen : c = true → L.word s) : Alike L c (.sym s) (.sym s)
  | str {c} (s : Bytes) : Alike L c (.str s) (.str s)
  | list {c} {xs ys : List Value} (length : xs.length = ys.length)
      (each : ∀ p ∈ xs.zip ys, Alike L c p.1 p.2) : Alike L c (.list xs) (.list ys)
  | block {xs ys : List Value} (length : xs.length = ys.length)
      (each : ∀ p ∈ xs.zip ys, Alike L true p.1 p.2) :
      Alike L true (.list (.sym (ascii "do") :: xs)) (.list (.sym (ascii "do") :: ys))
  | map {c} {xs ys : Dict Bytes Value} (length : xs.length = ys.length)
      (keys : ∀ p ∈ xs.zip ys, p.1.1 = p.2.1)
      (each : ∀ p ∈ xs.zip ys, Alike L false p.1.2 p.2.2) : Alike L c (.map xs) (.map ys)
  | lambda {c} {tag : Tag} {params : List Bytes} {body : Value} {env env' : Env}
      (params_bound : ∀ s ∈ params, L.binds s) (body_code : Alike L true body body)
      (ordered : Dict.Ordered env) (ordered' : Dict.Ordered env')
      (present : ∀ s, L.word s → ((Dict.find? env s).isSome ↔ (Dict.find? env' s).isSome))
      (each : ∀ s v w, L.word s → Dict.find? env s = some v → Dict.find? env' s = some w →
        Alike L false v w)
      (captured : L.captured env env') :
      Alike L c (.lambda tag params body env) (.lambda tag params body env')
  | pid {c} (p : Pid) : Alike L c (.pid p) (.pid p)
  | error {c} (kind : Bytes) {p q : Value} (payload : Alike L false p q) :
      Alike L c (.error kind p) (.error kind q)
  | bare {c} {k : Bytes} (allowed : L.bare k) (seen : c = true → k = Kind.symbol → L.word []) :
      Alike L c (.bare k) (.bare k)

/-- An expression that two runs evaluate alike. -/
def Code (L : Likeness) (e : Value) : Prop := L.Alike true e e

/-- Values that equality does not tell apart. -/
def EqualTo (L : Likeness) (v w : Value) : Prop :=
  ∀ c y z, L.Alike c y z → v.equal y = w.equal z

variable {L : Likeness} {c : Bool} {a a' b b' v w : Value} {xs ys xs' ys' : List Value}

theorem forall₂_of_zip {α : Type} {R : α → α → Prop} {xs ys : List α}
    (length : xs.length = ys.length) (each : ∀ p ∈ xs.zip ys, R p.1 p.2) : List.Forall₂ R xs ys :=
  List.forall₂_iff_zip.mpr ⟨length, fun member => each _ member⟩

theorem zip_of_forall₂ {α : Type} {R : α → α → Prop} {xs ys : List α} (each : List.Forall₂ R xs ys) :
    ∀ p ∈ xs.zip ys, R p.1 p.2 := fun _ member => (List.forall₂_iff_zip.mp each).2 member

namespace Alike

theorem of_items (each : List.Forall₂ (L.Alike c) xs ys) : L.Alike c (.list xs) (.list ys) :=
  .list each.length_eq (zip_of_forall₂ each)

theorem of_entries {xs ys : Dict Bytes Value}
    (each : List.Forall₂ (fun x y => x.1 = y.1 ∧ L.Alike false x.2 y.2) xs ys) :
    L.Alike c (.map xs) (.map ys) :=
  .map each.length_eq (fun p member => (zip_of_forall₂ each p member).1)
    fun p member => (zip_of_forall₂ each p member).2

theorem empty : L.Alike c .empty .empty := .list rfl nofun

theorem data (alike : L.Alike c v w) : L.Alike false v w := by
  induction alike with
  | int n => exact .int n
  | bool b => exact .bool b
  | sym => exact .sym nofun
  | str s => exact .str s
  | list length _ ih => exact .list length ih
  | block length _ ih =>
    exact .of_items (.cons (.sym nofun) (forall₂_of_zip length ih))
  | map length keys each => exact .map length keys each
  | lambda params_bound body_code ordered ordered' present each captured =>
    exact .lambda params_bound body_code ordered ordered' present each captured
  | pid p => exact .pid p
  | error kind payload => exact .error kind payload
  | bare allowed => exact .bare allowed nofun

theorem items (alike : L.Alike c (.list xs) (.list ys)) : List.Forall₂ (L.Alike false) xs ys := by
  cases alike.data with
  | list length each => exact forall₂_of_zip length each

theorem entries {xs ys : Dict Bytes Value} (alike : L.Alike c (.map xs) (.map ys)) :
    List.Forall₂ (fun x y => x.1 = y.1 ∧ L.Alike false x.2 y.2) xs ys := by
  cases alike with
  | map length keys each =>
    exact forall₂_of_zip length fun p member => ⟨keys p member, each p member⟩

theorem kind_eq (alike : L.Alike c v w) : v.kind = w.kind := by
  cases alike <;> rfl

theorem truthy_eq (alike : L.Alike c v w) : v.truthy = w.truthy := by
  cases alike <;> rfl

theorem payload (alike : L.Alike false v w) : L.Alike false v.payload w.payload := by
  by_cases nothing : v = .nothing
  · subst nothing
    cases alike
    exact .empty
  · have other : w ≠ .nothing := by
      rintro rfl
      cases alike
      exact nothing rfl
    have kept : ∀ {u : Value}, u ≠ .nothing → u.payload = u := by
      intro u some
      unfold Value.payload
      split
      · exact absurd rfl some
      · rfl
    rw [kept nothing, kept other]
    exact alike

theorem copyItems_eq_map (vs : List Value) : Value.copyItems vs = vs.map Value.copy := by
  induction vs with
  | nil => rfl
  | cons v vs ih => rw [Value.copyItems, ih, List.map_cons]

theorem copies (each : List.Forall₂ (fun x y => L.Alike false x.copy y.copy) xs ys) :
    L.Alike false (.list (Value.copyItems xs)) (.list (Value.copyItems ys)) := by
  rw [copyItems_eq_map, copyItems_eq_map]
  exact .of_items (List.forall₂_map_left_iff.mpr (List.forall₂_map_right_iff.mpr each))

theorem copy (alike : L.Alike c v w) : L.Alike false v.copy w.copy := by
  induction alike with
  | list length _ ih => exact copies (forall₂_of_zip length ih)
  | block length _ ih => exact copies (.cons (.sym nofun) (forall₂_of_zip length ih))
  | error kind _ ih => exact .error kind ih.payload
  | bare allowed =>
    unfold Value.copy
    split
    · exact .empty
    · exact .bare allowed nofun
  | int n => exact .int n
  | bool b => exact .bool b
  | sym => exact .sym nofun
  | str s => exact .str s
  | map length keys each => exact .map length keys each
  | lambda params_bound body_code ordered ordered' present each captured =>
    exact .lambda params_bound body_code ordered ordered' present each captured
  | pid p => exact .pid p

/-! ### Printed forms -/

theorem writeItems_congr (each : List.Forall₂ (fun x y => ∀ rest, x.write rest = y.write rest) xs ys)
    (rest : Bytes) : Value.writeItems xs rest = Value.writeItems ys rest := by
  induction each generalizing rest with
  | nil => rfl
  | cons first later ih =>
    cases later with
    | nil => exact first rest
    | cons => simp only [Value.writeItems, first, ih]

theorem writeEntries_congr {xs ys : Dict Bytes Value}
    (each : List.Forall₂ (fun x y => x.1 = y.1 ∧ ∀ rest, x.2.write rest = y.2.write rest) xs ys)
    (rest : Bytes) : Value.writeEntries xs rest = Value.writeEntries ys rest := by
  induction each generalizing rest with
  | nil => rfl
  | cons first later ih =>
    cases later with
    | nil => simp only [Value.writeEntries, first.1, first.2]
    | cons => simp only [Value.writeEntries, first.1, first.2, ih]

theorem write_eq (alike : L.Alike c v w) (rest : Bytes) : v.write rest = w.write rest := by
  induction alike generalizing rest with
  | list length _ ih =>
    simp only [Value.write, writeItems_congr (forall₂_of_zip length ih)]
  | block length _ ih =>
    simp only [Value.write, writeItems_congr (.cons (fun _ => rfl) (forall₂_of_zip length ih))]
  | map length keys _ ih =>
    simp only [Value.write, writeEntries_congr
      (forall₂_of_zip length fun p member => ⟨keys p member, ih p member⟩)]
  | error kind _ ih => simp only [Value.write, ih]
  | lambda => simp only [Value.write]
  | _ => rfl

theorem encode_eq (alike : L.Alike c v w) : v.encode = w.encode := alike.write_eq []

theorem display_eq (alike : L.Alike c v w) : v.display = w.display := by
  have same := alike.encode_eq
  cases alike <;> first | rfl | exact same

/-! ### Equality -/

theorem equalItems_congr (each : List.Forall₂ L.EqualTo xs xs')
    (others : List.Forall₂ (L.Alike false) ys ys') :
    Value.equalItems xs ys = Value.equalItems xs' ys' := by
  induction each generalizing ys ys' with
  | nil => cases others <;> rfl
  | cons first later ih =>
    cases others with
    | nil => rfl
    | cons second rest => simp only [Value.equalItems, first _ _ _ second, ih rest]

theorem find?_alike {xs ys : Dict Bytes Value} {R : Value → Value → Prop}
    (each : List.Forall₂ (fun x y => x.1 = y.1 ∧ R x.2 y.2) xs ys) (k : Bytes) :
    Option.Rel R (Dict.find? xs k) (Dict.find? ys k) := by
  induction each with
  | nil => exact .none
  | cons first later ih =>
    rw [Dict.find?_cons, Dict.find?_cons, first.1]
    split
    · exact .some first.2
    · exact ih

theorem insert_alike {xs ys : Dict Bytes Value} {R : Value → Value → Prop}
    (each : List.Forall₂ (fun x y => x.1 = y.1 ∧ R x.2 y.2) xs ys) (k : Bytes) (related : R v w) :
    List.Forall₂ (fun x y => x.1 = y.1 ∧ R x.2 y.2) (Dict.insert xs k v) (Dict.insert ys k w) := by
  induction each with
  | nil => exact .cons ⟨rfl, related⟩ .nil
  | cons first later ih =>
    rw [Dict.insert, Dict.insert, first.1]
    split
    · exact .cons ⟨rfl, related⟩ (.cons ⟨rfl, first.2⟩ later)
    split
    · exact .cons ⟨rfl, related⟩ later
    · exact .cons ⟨rfl, first.2⟩ ih

theorem equalEntries_congr {xs xs' ys ys' : Dict Bytes Value}
    (each : List.Forall₂ (fun x x' => x.1 = x'.1 ∧ L.EqualTo x.2 x'.2) xs xs')
    (others : List.Forall₂ (fun y y' => y.1 = y'.1 ∧ L.Alike false y.2 y'.2) ys ys') :
    Value.equalEntries xs ys = Value.equalEntries xs' ys' := by
  induction each with
  | nil => simp only [Value.equalEntries]
  | @cons x x' _ _ first later ih =>
    obtain ⟨k, v⟩ := x
    obtain ⟨k', v'⟩ := x'
    obtain ⟨rfl, same⟩ := first
    have found := find?_alike others k
    simp only [Value.equalEntries]
    generalize Dict.find? ys k = y, Dict.find? ys' k = y' at found
    cases found with
    | none => rfl
    | some second => simp only [same _ _ _ second, ih]

theorem equalTo_list (each : List.Forall₂ L.EqualTo xs ys) :
    L.EqualTo (.list xs) (.list ys) := by
  intro c y z second
  cases second.data with
  | list length' each' => exact equalItems_congr each (forall₂_of_zip length' each')
  | bare => cases each <;> rfl
  | _ => rfl

theorem equalTo_map {xs ys : Dict Bytes Value}
    (each : List.Forall₂ (fun x y => x.1 = y.1 ∧ L.EqualTo x.2 y.2) xs ys) :
    L.EqualTo (.map xs) (.map ys) := by
  intro c y z second
  cases second with
  | map length' keys' each' =>
    have others := entries (c := false) (.map length' keys' each')
    simp only [Value.equal, each.length_eq, length', equalEntries_congr each others]
  | bare => cases each <;> rfl
  | _ => rfl

theorem equalTo (alike : L.Alike c v w) : L.EqualTo v w := by
  induction alike with
  | list length _ ih => exact equalTo_list (forall₂_of_zip length ih)
  | block length _ ih =>
    refine equalTo_list (.cons (fun c y z second => ?_) (forall₂_of_zip length ih))
    cases second <;> rfl
  | map length keys _ ih =>
    exact equalTo_map (forall₂_of_zip length fun p member => ⟨keys p member, ih p member⟩)
  | error kind _ ih =>
    intro c y z second
    cases second with
    | error kind' payload => simp only [Value.equal, ih _ _ _ payload]
    | _ => rfl
  | bare =>
    intro c y z second
    cases second.data with
    | list length' => cases forall₂_of_zip length' (R := fun _ _ => True) (fun _ _ => trivial) <;> rfl
    | map length' => cases forall₂_of_zip length' (R := fun _ _ => True) (fun _ _ => trivial) <;> rfl
    | _ => rfl
  | _ =>
    intro c y z second
    cases second <;> rfl

theorem equal_eq (first : L.Alike c a a') {d : Bool} (second : L.Alike d b b') :
    a.equal b = a'.equal b' := first.equalTo _ _ _ second

end Alike

/-! ### Environments -/

/-- Environments that agree on all words. -/
structure EnvAlike (L : Likeness) (e e' : Env) : Prop where
  ordered : Dict.Ordered e
  ordered' : Dict.Ordered e'
  found : ∀ s, L.word s → Option.Rel (L.Alike false) (Dict.find? e s) (Dict.find? e' s)

/-- The environments of two runs at the same point. -/
structure Current (L : Likeness) (e e' : Env) : Prop extends L.EnvAlike e e' where
  current : L.current e e'

/-- The environments of a lambda in two runs. -/
structure Captured (L : Likeness) (e e' : Env) : Prop extends L.EnvAlike e e' where
  captured : L.captured e e'

variable {e e' d d' : Env} {s : Bytes} {params : List Bytes} {body : Value} {tag : Tag}

theorem Current.toCaptured (current : L.Current e e') : L.Captured e e' :=
  ⟨current.toEnvAlike, L.captured_of_current current.current⟩

theorem Captured.closure (captured : L.Captured e e') (params_bound : ∀ s ∈ params, L.binds s)
    (body_code : L.Code body) (tag : Tag) :
    L.Alike c (.lambda tag params body e) (.lambda tag params body e') := by
  refine .lambda params_bound body_code captured.ordered captured.ordered' ?_ ?_ captured.captured
  · intro s seen
    have found := captured.found s seen
    generalize Dict.find? e s = x, Dict.find? e' s = y at found
    cases found <;> simp
  · intro s v w seen first second
    have found := captured.found s seen
    rw [first, second] at found
    cases found with
    | some alike => exact alike

theorem rel_of_present {R : Value → Value → Prop} {x y : Option Value} (present : x.isSome ↔ y.isSome)
    (each : ∀ v w, x = some v → y = some w → R v w) : Option.Rel R x y := by
  cases x with
  | none =>
    cases y with
    | none => exact .none
    | some w => simp at present
  | some v =>
    cases y with
    | none => simp at present
    | some w => exact .some (each v w rfl rfl)

theorem Alike.of_lambda (alike : L.Alike c (.lambda tag params body e) w) :
    ∃ e', w = .lambda tag params body e' ∧ (∀ s ∈ params, L.binds s) ∧ L.Code body ∧
      L.Captured e e' := by
  cases alike with
  | @lambda _ _ _ _ _ e' params_bound body_code ordered ordered' present each captured =>
    have found : ∀ s, L.word s → Option.Rel (L.Alike false) (Dict.find? e s) (Dict.find? e' s) :=
      fun s seen => rel_of_present (present s seen) fun v w => each s v w seen
    exact ⟨e', rfl, params_bound, body_code, ⟨ordered, ordered', found⟩, captured⟩

theorem envAlike_self (ordered : Dict.Ordered e) (each : ∀ x ∈ e, L.Alike false x.2 x.2) :
    L.EnvAlike e e := by
  refine ⟨ordered, ordered, fun s _ => ?_⟩
  cases found : Dict.find? e s with
  | none => exact .none
  | some v => exact .some (each (s, v) (Dict.mem_of_find? found))

namespace EnvAlike

theorem bind (env : L.EnvAlike e e') (s : Bytes) (alike : L.Alike false v w) :
    L.EnvAlike (e.bind s v) (e'.bind s w) := by
  refine ⟨Dict.ordered_insert env.ordered s v, Dict.ordered_insert env.ordered' s w, ?_⟩
  intro x seen
  rw [Env.bind, Env.bind, Dict.find?_insert, Dict.find?_insert]
  split
  · exact .some alike
  · exact env.found x seen

theorem merge (env : L.EnvAlike e e') (upper : L.EnvAlike d d') :
    L.EnvAlike (e.merge d) (e'.merge d') := by
  refine ⟨Env.ordered_merge env.ordered upper.ordered,
    Env.ordered_merge env.ordered' upper.ordered', ?_⟩
  intro x seen
  rw [Env.find?_merge upper.ordered, Env.find?_merge upper.ordered']
  have first := upper.found x seen
  generalize Dict.find? d x = v, Dict.find? d' x = w at first
  cases first with
  | none => exact env.found x seen
  | some alike => exact .some alike

end EnvAlike

namespace Current

theorem bind (current : L.Current e e') (bound : L.binds s) (alike : L.Alike false v w) :
    L.Current (e.bind s v) (e'.bind s w) :=
  ⟨current.toEnvAlike.bind s alike, L.current_bind v w bound current.current⟩

theorem merge (current : L.Current e e') (upper : L.Captured d d') :
    L.Current (e.merge d) (e'.merge d') :=
  ⟨current.toEnvAlike.merge upper.toEnvAlike,
    L.current_merge upper.ordered upper.ordered' current.current upper.captured⟩

theorem bindAll (current : L.Current e e') (params_bound : ∀ s ∈ params, L.binds s)
    (args : List.Forall₂ (L.Alike false) xs ys) :
    L.Current (e.bindAll params xs) (e'.bindAll params ys) := by
  induction args generalizing e e' params with
  | nil =>
    cases params <;> exact current
  | cons first later ih =>
    cases params with
    | nil => exact current
    | cons p ps =>
      exact ih (current.bind (params_bound p (by simp)) first)
        fun s member => params_bound s (by simp [member])

end Current
end Likeness
end ProcLisp
