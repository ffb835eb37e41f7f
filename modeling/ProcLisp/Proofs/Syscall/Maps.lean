import ProcLisp.Proofs.Syscall.Table
import ProcLisp.Proofs.Value.Equality

/-!
# Map syscalls

Of the writes that make a map only the last one under each key counts. Maps with the same last writes
are the same value, whatever order they were made in, so they print alike.
-/

namespace ProcLisp

open Value (Constructed)

namespace Syscall

/-- Keys and values in turn, as `map` takes them. -/
def alternating (writes : List (Bytes × Value)) : List Value :=
  writes.flatMap fun e => [.sym e.1, e.2]

/-- What `map` takes for keys are the arguments at even places. -/
def HasBadKey (args : List Value) : Prop := ∃ i v, args[2 * i]? = some v ∧ ∀ s, v ≠ .sym s

theorem withSymbol_other {v : Value} (other : ∀ s, v ≠ .sym s) (name : Bytes) (f : Bytes → Reply) :
    withSymbol name v f = .expected name Kind.symbol v := by
  cases v with
  | sym s => exact absurd rfl (other s)
  | _ => rfl

theorem withMap_other {v : Value} (other : ∀ entries, v ≠ .map entries) (name : Bytes)
    (f : Dict Bytes Value → Reply) : withMap name v f = .expected name Kind.map v := by
  cases v with
  | map entries => exact absurd rfl (other entries)
  | _ => rfl

theorem alternating_cons (e : Bytes × Value) (writes : List (Bytes × Value)) :
    alternating (e :: writes) = .sym e.1 :: e.2 :: alternating writes := rfl

theorem length_alternating (writes : List (Bytes × Value)) :
    (alternating writes).length = 2 * writes.length := by
  induction writes with
  | nil => rfl
  | cons e writes ih =>
    rw [alternating_cons, List.length_cons, List.length_cons, ih, List.length_cons]
    omega

theorem not_hasBadKey_alternating (writes : List (Bytes × Value)) :
    ¬ HasBadKey (alternating writes) := by
  rintro ⟨i, v, found, other⟩
  induction i generalizing writes with
  | zero =>
    cases writes with
    | nil => cases found
    | cons e writes => exact other e.1 (Option.some.inj found).symm
  | succ i ih =>
    cases writes with
    | nil => cases found
    | cons e writes => exact ih writes found

theorem bindPairs_alternating (entries : Dict Bytes Value) (writes : List (Bytes × Value)) :
    bindPairs entries (alternating writes) =
      .value (.map (writes.foldl (fun d e => Dict.insert d e.1 e.2) entries)) := by
  induction writes generalizing entries with
  | nil => rfl
  | cons e writes ih => exact ih (Dict.insert entries e.1 e.2)

theorem makeMap_alternating (writes : List (Bytes × Value)) :
    makeMap (alternating writes) = .value (.map (Dict.ofList writes)) := by
  rw [makeMap, length_alternating, if_neg (by omega)]
  exact bindPairs_alternating [] writes

/-- Arguments in pairs are writes, or one of the keys is refused. -/
theorem alternating_or_refused (args : List Value) (even : args.length % 2 = 0) :
    (∃ writes, args = alternating writes) ∨
      (HasBadKey args ∧ ∀ entries, ∃ text, bindPairs entries args = .plain text) := by
  match args with
  | [] => exact .inl ⟨[], rfl⟩
  | [_] => cases even
  | k :: v :: rest =>
    have even' : rest.length % 2 = 0 := by
      simp only [List.length_cons] at even
      omega
    by_cases symbol : ∃ s, k = .sym s
    · obtain ⟨s, rfl⟩ := symbol
      rcases alternating_or_refused rest even' with ⟨writes, rfl⟩ | ⟨⟨i, w, found, other⟩, refused⟩
      · exact .inl ⟨(s, v) :: writes, rfl⟩
      · exact .inr ⟨⟨i + 1, w, found, other⟩, fun entries => refused (Dict.insert entries s v)⟩
    · have other : ∀ s, k ≠ .sym s := fun s same => symbol ⟨s, same⟩
      refine .inr ⟨⟨0, k, rfl, other⟩, fun entries => ?_⟩
      rw [bindPairs, withSymbol_other other]
      exact ⟨_, rfl⟩

end Syscall

/-! ### The standard table -/

namespace SyscallTable

open Syscall

/-- The call is refused with a text of its own if the arguments are bad, and answered otherwise. -/
def FailsExactly (t : SyscallTable) (name : Bytes) (args : List Value) (bad : Prop) : Prop :=
  (bad → ∃ text, t.invoke name args = ([], .error (.syscallFailed name text))) ∧
    (¬ bad → ∃ v, t.invoke name args = ([], .ok v))

/-- What `map` makes of the first writes, and one `assoc` after the other of the writes after them. -/
def written (t : SyscallTable) (first more : List (Bytes × Value)) : Except Failure Value := do
  let m ← (t.invoke (ascii "map") (alternating first)).2
  more.foldlM (fun m e => (t.invoke (ascii "assoc") [m, .sym e.1, e.2]).2) m

variable (sink : Sink)

theorem invoke_answered (sc : Syscall) (listed : sc ∈ listCalls ++ integerCalls ++ dataCalls sink)
    {args : List Value} {v : Value} (admitted : sc.admits args.length)
    (answered : sc.run args = .value v) : (standard sink).invoke sc.name args = ([], .ok v) :=
  (invoke_standard listed admitted).trans (call_of_value answered)

theorem invoke_map (writes : List (Bytes × Value)) :
    (standard sink).invoke (ascii "map") (alternating writes) =
      ([], .ok (.map (Dict.ofList writes))) :=
  invoke_answered sink { name := ascii "map", arity := 0, variadic := true, run := makeMap }
    (by simp [dataCalls]) (by simp [admits]) (makeMap_alternating writes)

theorem invoke_get (entries : Dict Bytes Value) (k : Bytes) :
    (standard sink).invoke (ascii "get") [.map entries, .sym k] =
      ([], .ok ((Dict.find? entries k).getD .empty)) :=
  invoke_answered sink { name := ascii "get", arity := 2, run := mapGet }
    (by simp [dataCalls]) (by simp [admits]) rfl

theorem invoke_assoc (entries : Dict Bytes Value) (k : Bytes) (v : Value) :
    (standard sink).invoke (ascii "assoc") [.map entries, .sym k, v] =
      ([], .ok (.map (Dict.insert entries k v))) :=
  invoke_answered sink { name := ascii "assoc", arity := 3, run := mapAssoc }
    (by simp [dataCalls]) (by simp [admits]) rfl

theorem invoke_keys (entries : Dict Bytes Value) :
    (standard sink).invoke (ascii "keys") [.map entries] =
      ([], .ok (.list ((Dict.keys entries).map .sym))) :=
  invoke_answered sink { name := ascii "keys", arity := 1, run := mapKeys }
    (by simp [dataCalls]) (by simp [admits]) rfl

theorem invoke_len (entries : Dict Bytes Value) :
    (standard sink).invoke (ascii "len") [.map entries] =
      ([], .ok (Failure.count entries.length)) :=
  invoke_answered sink { name := ascii "len", arity := 1, run := length }
    (by simp [listCalls]) (by simp [admits]) rfl

theorem written_standard (first more : List (Bytes × Value)) :
    (standard sink).written first more = .ok (.map (Dict.ofList (first ++ more))) := by
  have later (more : List (Bytes × Value)) (entries : Dict Bytes Value) :
      more.foldlM (fun m e => ((standard sink).invoke (ascii "assoc") [m, .sym e.1, e.2]).2)
        (Value.map entries) =
      .ok (.map (more.foldl (fun d e => Dict.insert d e.1 e.2) entries)) := by
    induction more generalizing entries with
    | nil => rfl
    | cons e more ih =>
      rw [List.foldlM_cons, invoke_assoc]
      exact ih (Dict.insert entries e.1 e.2)
  rw [written, invoke_map, Dict.ofList_append]
  exact later more _

/-! ### Failures -/

theorem failsExactly (sc : Syscall) (listed : sc ∈ dataCalls sink) {args : List Value}
    (admitted : sc.admits args.length) {bad : Prop}
    (refused : bad → ∃ text, sc.run args = .plain text)
    (answered : ¬ bad → ∃ v, sc.run args = .value v) :
    (standard sink).FailsExactly sc.name args bad := by
  have called : (standard sink).invoke sc.name args = sc.call args :=
    invoke_standard (by simp [listed]) admitted
  unfold FailsExactly
  rw [called]
  refine ⟨fun wrong => ?_, fun fine => ?_⟩
  · obtain ⟨text, run⟩ := refused wrong
    exact ⟨text, call_of_plain run⟩
  · obtain ⟨v, run⟩ := answered fine
    exact ⟨v, call_of_value run⟩

theorem map_failsExactly (args : List Value) :
    (standard sink).FailsExactly (ascii "map") args (args.length % 2 = 1 ∨ HasBadKey args) := by
  refine failsExactly sink { name := ascii "map", arity := 0, variadic := true, run := makeMap }
    (by simp [dataCalls]) (by simp [admits]) (fun wrong => ?_) fun fine => ?_
  · by_cases odd : args.length % 2 = 1
    · exact ⟨_, if_pos (by omega)⟩
    · have key : HasBadKey args := wrong.resolve_left odd
      rcases alternating_or_refused args (by omega) with ⟨writes, rfl⟩ | ⟨-, refused⟩
      · exact absurd key (not_hasBadKey_alternating writes)
      · obtain ⟨text, refused⟩ := refused []
        exact ⟨text, (if_neg (by omega)).trans refused⟩
  · obtain ⟨even, keys⟩ := not_or.mp fine
    rcases alternating_or_refused args (by omega) with ⟨writes, rfl⟩ | ⟨key, -⟩
    · exact ⟨_, makeMap_alternating writes⟩
    · exact absurd key keys

theorem failsExactly_of_map (sc : Syscall) (listed : sc ∈ dataCalls sink) {args : List Value}
    (admitted : sc.admits args.length) {m : Value} {f : Dict Bytes Value → Value}
    (run : sc.run args = withMap sc.name m fun entries => .value (f entries)) :
    (standard sink).FailsExactly sc.name args (∀ entries, m ≠ .map entries) := by
  refine failsExactly sink sc listed admitted (fun other => ?_) fun fine => ?_
  · exact ⟨_, run.trans (withMap_other other _ _)⟩
  · push Not at fine
    obtain ⟨entries, rfl⟩ := fine
    exact ⟨_, run⟩

theorem failsExactly_of_key (sc : Syscall) (listed : sc ∈ dataCalls sink) {args : List Value}
    (admitted : sc.admits args.length) {m k : Value} {f : Dict Bytes Value → Bytes → Value}
    (run : sc.run args = withMap sc.name m fun entries => withSymbol sc.name k fun s =>
      .value (f entries s)) :
    (standard sink).FailsExactly sc.name args
      ((∀ entries, m ≠ .map entries) ∨ ∀ s, k ≠ .sym s) := by
  refine failsExactly sink sc listed admitted (fun wrong => ?_) fun fine => ?_
  · rcases wrong with other | other
    · exact ⟨_, run.trans (withMap_other other _ _)⟩
    · cases m with
      | map entries => exact ⟨_, run.trans (withSymbol_other other _ _)⟩
      | _ => exact ⟨_, run.trans (withMap_other (by nofun) _ _)⟩
  · push Not at fine
    obtain ⟨⟨entries, rfl⟩, s, rfl⟩ := fine
    exact ⟨_, run⟩

/-! ### Maps with the same contents -/

section Contents

variable {made : Tag → Closure} {writes writes' : List (Bytes × Value)}

theorem constructed_ofList (each : ∀ e ∈ writes, Constructed made e.2) :
    Constructed made (.map (Dict.ofList writes)) :=
  .map (Dict.ordered_ofList writes) fun e member => each e (Dict.mem_of_mem_ofList member)

theorem ofList_eq_iff : Dict.ofList writes = Dict.ofList writes' ↔
    ∀ k, Dict.last? writes k = Dict.last? writes' k := by
  constructor
  · intro same k
    rw [← Dict.find?_ofList, same, Dict.find?_ofList]
  · intro same
    refine Dict.eq_of_find?_eq (Dict.ordered_ofList _) (Dict.ordered_ofList _) fun k => ?_
    rw [Dict.find?_ofList, Dict.find?_ofList, same]

/-- No value is written under a key on either side, or equal ones are the last. -/
theorem equal_ofList_iff (each : ∀ e ∈ writes, Constructed made e.2)
    (each' : ∀ e ∈ writes', Constructed made e.2) :
    (Value.map (Dict.ofList writes)).equal (.map (Dict.ofList writes')) ↔
      ∀ k, Option.Rel (fun v w => v.equal w) (Dict.last? writes k) (Dict.last? writes' k) := by
  rw [(constructed_ofList each).equal_iff (constructed_ofList each'), Value.map.injEq, ofList_eq_iff]
  refine forall_congr' fun k => ?_
  cases last : Dict.last? writes k with
  | none => cases last' : Dict.last? writes' k <;> simp
  | some v =>
    cases last' : Dict.last? writes' k with
    | none => simp
    | some w =>
      have first := each _ (Dict.mem_of_last? last)
      have second := each' _ (Dict.mem_of_last? last')
      rw [Option.some.injEq, Option.rel_some_some, first.equal_iff second]

end Contents

/-- A map answers with what was written last under a key, and lists every key that was written once and
in order. Maps are equal exactly if the last writes under every key are, and then they print alike; if
those are the same, so are the maps. Only arguments of the wrong kind or number make a call fail. -/
theorem maps_canonical :
    (∀ first more, ∃ (m : Value) (ks : List Bytes), (standard sink).written first more = .ok m ∧
      (∀ k, (standard sink).invoke (ascii "get") [m, .sym k] =
        ([], .ok ((Dict.last? (first ++ more) k).getD .empty))) ∧
      (standard sink).invoke (ascii "keys") [m] = ([], .ok (.list (ks.map .sym))) ∧
      ks.Pairwise (· < ·) ∧ (∀ k, k ∈ ks ↔ ∃ v, (k, v) ∈ first ++ more) ∧
      (standard sink).invoke (ascii "len") [m] = ([], .ok (Failure.count ks.length))) ∧
    (∀ first more first' more' m m', (standard sink).written first more = .ok m →
      (standard sink).written first' more' = .ok m' →
      ((∀ k, Dict.last? (first ++ more) k = Dict.last? (first' ++ more') k) → m = m') ∧
      ∀ made, (∀ e ∈ first ++ more, Constructed made e.2) →
        (∀ e ∈ first' ++ more', Constructed made e.2) →
        Constructed made m ∧ (m.equal m' ↔ m = m') ∧
        (m.equal m' ↔ ∀ k, Option.Rel (fun v w => v.equal w) (Dict.last? (first ++ more) k)
          (Dict.last? (first' ++ more') k)) ∧
        (m.equal m' → m.encode = m'.encode)) ∧
    (∀ args, (standard sink).FailsExactly (ascii "map") args
      (args.length % 2 = 1 ∨ HasBadKey args)) ∧
    (∀ m k, (standard sink).FailsExactly (ascii "get") [m, k]
      ((∀ entries, m ≠ .map entries) ∨ ∀ s, k ≠ .sym s)) ∧
    (∀ m k v, (standard sink).FailsExactly (ascii "assoc") [m, k, v]
      ((∀ entries, m ≠ .map entries) ∨ ∀ s, k ≠ .sym s)) ∧
    ∀ m, (standard sink).FailsExactly (ascii "keys") [m] (∀ entries, m ≠ .map entries) := by
  refine ⟨fun first more => ?_, fun first more first' more' m m' one other => ?_,
    map_failsExactly sink, fun m k => ?_, fun m k v => ?_, fun m => ?_⟩
  · have ordered := Dict.ordered_ofList (first ++ more)
    refine ⟨_, Dict.keys (Dict.ofList (first ++ more)), written_standard sink first more,
      fun k => ?_, invoke_keys sink _, List.pairwise_map.mpr ordered, fun k => ?_, ?_⟩
    · rw [invoke_get, Dict.find?_ofList]
    · rw [Dict.mem_keys_ofList, Dict.keys, List.mem_map]
      simp only [Prod.exists, exists_and_right, exists_eq_right]
    · rw [invoke_len, Dict.keys, List.length_map]
  · rw [written_standard] at one other
    obtain rfl := Except.ok.inj one
    obtain rfl := Except.ok.inj other
    refine ⟨fun same => congrArg Value.map (ofList_eq_iff.mpr same), fun made each each' => ?_⟩
    have formed := constructed_ofList each
    have same := formed.equal_iff (constructed_ofList each')
    refine ⟨formed, same, equal_ofList_iff each each', fun equal => ?_⟩
    rw [same.mp equal]
  · exact failsExactly_of_key sink { name := ascii "get", arity := 2, run := mapGet }
      (by simp [dataCalls]) (by simp [admits]) rfl
  · exact failsExactly_of_key sink { name := ascii "assoc", arity := 3, run := mapAssoc }
      (by simp [dataCalls]) (by simp [admits]) rfl
  · exact failsExactly_of_map sink { name := ascii "keys", arity := 1, run := mapKeys }
      (by simp [dataCalls]) (by simp [admits]) rfl

/-- One map is made at once, the other with an earlier value for each of its keys. -/
theorem maps_canonical_of_orders :
    let made : Tag → Closure := fun _ => ⟨[], .int 0, []⟩
    let t := standard .opened
    let first : List (Bytes × Value) := [(ascii "b", .int 1), (ascii "a", .list [.int 2])]
    let first' : List (Bytes × Value) := [(ascii "a", .str []), (ascii "b", .bool true)]
    let more' : List (Bytes × Value) := [(ascii "b", .int 1), (ascii "a", .list [.int 2])]
    ∃ m m', (t.written first [] = .ok m ∧ t.written first' more' = .ok m' ∧
        (∀ e ∈ first ++ [], Constructed made e.2) ∧ ∀ e ∈ first' ++ more', Constructed made e.2) ∧
      m.equal m' ∧ m.encode = m'.encode ∧
      ∃ text, t.invoke (ascii "assoc") [m, .int 1, m'] =
        ([], .error (.syscallFailed (ascii "assoc") text)) := by
  intro made t first first' more'
  have each : ∀ e ∈ first ++ [], Constructed made e.2 := by
    simpa [first] using ⟨Constructed.int 1, Constructed.list (by simpa using Constructed.int 2)⟩
  have each' : ∀ e ∈ first' ++ more', Constructed made e.2 := by
    simpa [first', more'] using ⟨Constructed.str [], .bool true, .int 1,
      Constructed.list (by simpa using Constructed.int 2)⟩
  have here := written_standard .opened first []
  have there := written_standard .opened first' more'
  have same : ∀ k, Dict.last? (first ++ []) k = Dict.last? (first' ++ more') k :=
    ofList_eq_iff.mp rfl
  obtain ⟨-, unique, -, -, assoc, -⟩ := maps_canonical .opened
  obtain ⟨alike, told⟩ := unique _ _ _ _ _ _ here there
  obtain ⟨-, equal_iff, -, prints⟩ := told made each each'
  have equal := equal_iff.mpr (alike same)
  exact ⟨_, _, ⟨here, there, each, each'⟩, equal, prints equal, (assoc _ _ _).1 (.inr nofun)⟩

end SyscallTable
end ProcLisp
