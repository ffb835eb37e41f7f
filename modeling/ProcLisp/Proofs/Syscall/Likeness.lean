import ProcLisp.Proofs.Results
import ProcLisp.Proofs.Syscall.Table
import ProcLisp.Proofs.Value.Likeness
import ProcLisp.Syscall.Standard

/-!
# Syscalls that cannot tell values apart

A syscall that gets arguments which look alike prints the same and answers with values that look
alike, or fails for reasons that look alike. All syscalls of the standard table do.
-/

namespace ProcLisp

namespace Likeness

/-- Failures of one kind with payloads that look alike, or one and the same failure. -/
inductive FailureAlike (L : Likeness) : Failure → Failure → Prop where
  | same (f : Failure) : FailureAlike L f f
  | raise (kind : Bytes) {v w : Value} (payload : L.Alike false v w) :
      FailureAlike L (.raise kind v) (.raise kind w)

inductive TroubleAlike (L : Likeness) : Trouble → Trouble → Prop where
  | language {f g : Failure} (failure : L.FailureAlike f g) :
      TroubleAlike L (.language f) (.language g)
  | plain (text : Bytes) : TroubleAlike L (.plain text) (.plain text)

structure ReplyAlike (L : Likeness) (r r' : Reply) : Prop where
  printed : r.printed = r'.printed
  result : Concur L.TroubleAlike (L.Alike false) r.result r'.result

/-- A call on values that look alike comes out alike. -/
def Respected (L : Likeness) (run : List Value → Reply) : Prop :=
  ∀ xs ys, List.Forall₂ (L.Alike false) xs ys → L.ReplyAlike (run xs) (run ys)

end Likeness

open Likeness

def SyscallTable.Respects (t : SyscallTable) (L : Likeness) : Prop :=
  ∀ e ∈ t, L.Respected e.2.run

variable {L : Likeness} {v w : Value} {name : Bytes}

namespace Likeness

theorem FailureAlike.kind_eq {f g : Failure} (alike : L.FailureAlike f g) : f.kind = g.kind := by
  cases alike <;> rfl

theorem FailureAlike.encode_eq {f g : Failure} (alike : L.FailureAlike f g) :
    f.payload.encode = g.payload.encode := by
  cases alike with
  | same => rfl
  | raise kind payload => exact payload.payload.encode_eq

theorem TroubleAlike.toFailure {e e' : Trouble} (alike : L.TroubleAlike e e') :
    L.FailureAlike e.toFailure e'.toFailure := by
  cases alike with
  | language failure => exact failure
  | plain text => exact .same _

namespace ReplyAlike

theorem value (alike : L.Alike false v w) : L.ReplyAlike (.value v) (.value w) :=
  ⟨rfl, .ok alike⟩

theorem plain (text : Bytes) : L.ReplyAlike (.plain text) (.plain text) :=
  ⟨rfl, .error (.plain text)⟩

theorem unadmitted : L.ReplyAlike .unadmitted .unadmitted := .plain _

theorem truth {a b : Bool} (same : a = b) :
    L.ReplyAlike (.value (.bool a)) (.value (.bool b)) := by
  rw [same]
  exact .value (.bool b)

theorem counted {m n : Nat} (same : m = n) :
    L.ReplyAlike (.value (Failure.count m)) (.value (Failure.count n)) := by
  rw [same]
  exact .value (.int _)

theorem expected (name want : Bytes) (alike : L.Alike false v w) :
    L.ReplyAlike (.expected name want v) (.expected name want w) := by
  rw [Reply.expected, Reply.expected, alike.encode_eq]
  exact .plain _

theorem withSymbol {f g : Bytes → Reply} (alike : L.Alike false v w)
    (related : ∀ s, L.ReplyAlike (f s) (g s)) :
    L.ReplyAlike (Syscall.withSymbol name v f) (Syscall.withSymbol name w g) := by
  have refused := expected name Kind.symbol alike
  cases alike <;> first | exact related _ | exact refused

theorem withMap {f g : Dict Bytes Value → Reply} (alike : L.Alike false v w)
    (related : ∀ {xs ys}, List.Forall₂ (fun x y => x.1 = y.1 ∧ L.Alike false x.2 y.2) xs ys →
      L.ReplyAlike (f xs) (g ys)) :
    L.ReplyAlike (Syscall.withMap name v f) (Syscall.withMap name w g) := by
  have refused := expected name Kind.map alike
  have entries := alike
  cases alike <;> first | exact related entries.entries | exact refused

theorem withList {f g : List Value → Reply} (alike : L.Alike false v w)
    (related : ∀ {xs ys}, List.Forall₂ (L.Alike false) xs ys → L.ReplyAlike (f xs) (g ys)) :
    L.ReplyAlike (Syscall.withList name v f) (Syscall.withList name w g) := by
  have refused := expected name Kind.list alike
  have items := alike
  cases alike <;> first | exact related items.items | exact refused

end ReplyAlike

variable {xs ys : List Value}

theorem ints_alike (each : List.Forall₂ (L.Alike false) xs ys) :
    Concur (L.Alike false) Eq (Syscall.ints xs) (Syscall.ints ys) := by
  induction each with
  | nil => exact .ok rfl
  | cons first later ih =>
    have refused := first
    cases first <;> first
      | exact ih.map fun same => congrArg _ same
      | exact .error refused

theorem ReplyAlike.withInts (each : List.Forall₂ (L.Alike false) xs ys) (name : Bytes)
    (f : List Int64 → Reply)
    (known : ∀ ns, L.ReplyAlike (f ns) (f ns)) :
    L.ReplyAlike (Syscall.withInts name xs f) (Syscall.withInts name ys f) := by
  have numbers := ints_alike each
  unfold Syscall.withInts
  generalize Syscall.ints xs = a, Syscall.ints ys = b at numbers
  cases numbers with
  | ok same =>
    rw [same]
    exact known _
  | error refused => exact .expected _ _ refused

theorem getElem?_alike {R : Value → Value → Prop} (each : List.Forall₂ R xs ys) (i : Nat) :
    Option.Rel R xs[i]? ys[i]? := by
  induction each generalizing i with
  | nil => exact .none
  | cons first later ih =>
    cases i with
    | zero => exact .some first
    | succ i => simpa using ih i

theorem alike_names (names : List Bytes) :
    L.Alike false (.list (names.map .sym)) (.list (names.map .sym)) := by
  refine .of_items (List.forall₂_same.mpr fun v member => ?_)
  obtain ⟨name, -, rfl⟩ := List.mem_map.mp member
  exact .sym nofun

/-! ### List syscalls -/

theorem respected_length : L.Respected Syscall.length := by
  intro xs ys each
  rcases each with _ | ⟨first, _ | ⟨second, later⟩⟩
  · exact .unadmitted
  · have refused := ReplyAlike.expected (ascii "len") Kind.list first
    cases first with
    | list length => exact .counted length
    | str => exact .counted rfl
    | map length => exact .counted length
    | bare =>
      unfold Syscall.length
      dsimp only
      split
      · exact .counted rfl
      · exact refused
    | _ => exact refused
  · cases first <;> exact .unadmitted

theorem respected_cons : L.Respected Syscall.cons := by
  intro xs ys each
  rcases each with _ | ⟨first, _ | ⟨second, _ | ⟨third, later⟩⟩⟩
  · exact .unadmitted
  · exact .unadmitted
  · exact .withList second fun items => .value (.of_items (.cons first items))
  · exact .unadmitted

theorem respected_head (name : Bytes) : L.Respected (Syscall.head name) := by
  intro xs ys each
  rcases each with _ | ⟨first, _ | ⟨second, later⟩⟩
  · exact .unadmitted
  · refine .withList first fun items => ?_
    cases items with
    | nil => exact .plain _
    | cons head tail => exact .value head
  · exact .unadmitted

theorem respected_tail (name : Bytes) : L.Respected (Syscall.tail name) := by
  intro xs ys each
  rcases each with _ | ⟨first, _ | ⟨second, later⟩⟩
  · exact .unadmitted
  · refine .withList first fun items => ?_
    cases items with
    | nil => exact .value .empty
    | cons head tail => exact .value (.of_items tail)
  · exact .unadmitted

theorem respected_isEmpty : L.Respected Syscall.isEmpty := by
  intro xs ys each
  rcases each with _ | ⟨first, _ | ⟨second, later⟩⟩
  · exact .unadmitted
  · refine .withList first fun items => ?_
    cases items <;> exact .value (.bool _)
  · exact .unadmitted

theorem respected_nth : L.Respected Syscall.nth := by
  intro xs ys each
  rcases each with _ | ⟨first, _ | ⟨second, _ | ⟨third, later⟩⟩⟩
  · exact .unadmitted
  · exact .unadmitted
  · refine .withList first fun {items items'} alike => ?_
    have refused := ReplyAlike.expected (ascii "nth") Kind.int second
    cases second with
    | int n =>
      have there : Option.Rel (L.Alike false)
          (if n < 0 then none else items[n.toInt.toNat]?)
          (if n < 0 then none else items'[n.toInt.toNat]?) := by
        split
        · exact .none
        · exact getElem?_alike alike _
      dsimp only
      rw [alike.length_eq]
      generalize (if n < 0 then none else items[n.toInt.toNat]?) = x,
        (if n < 0 then none else items'[n.toInt.toNat]?) = y at there
      cases there with
      | none => exact .plain _
      | some related => exact .value related
    | _ => exact refused
  · exact .unadmitted

theorem respected_append : L.Respected Syscall.append := by
  intro xs ys each
  have from_items : ∀ {items items' : List Value}, List.Forall₂ (L.Alike false) items items' →
      L.ReplyAlike (Syscall.append.go items xs) (Syscall.append.go items' ys) := by
    induction each with
    | nil => exact fun items => .value (.of_items items)
    | cons first later ih =>
      exact fun items => .withList first fun more => ih (List.rel_append items more)
  exact from_items .nil

/-! ### Integer syscalls -/

theorem respected_sum : L.Respected Syscall.sum :=
  fun _ _ each => .withInts each _ _ fun _ => .value (.int _)

theorem respected_product : L.Respected Syscall.product :=
  fun _ _ each => .withInts each _ _ fun _ => .value (.int _)

theorem respected_difference : L.Respected Syscall.difference := by
  refine fun xs ys each => .withInts each _ _ fun ns => ?_
  split
  · exact .unadmitted
  · exact .value (.int _)
  · exact .value (.int _)

theorem respected_compare (name : Bytes) (holds : Int64 → Int64 → Bool) :
    L.Respected (Syscall.compare name holds) := by
  refine fun xs ys each => .withInts each _ _ fun ns => ?_
  split
  · exact .value (.bool _)
  · exact .unadmitted

theorem respected_parity (name : Bytes) (rem : Int64) :
    L.Respected (Syscall.parity name rem) := by
  refine fun xs ys each => .withInts each _ _ fun ns => ?_
  split
  · exact .value (.bool _)
  · exact .unadmitted

theorem respected_equal : L.Respected Syscall.equal := by
  intro xs ys each
  rcases each with _ | ⟨first, _ | ⟨second, _ | ⟨third, later⟩⟩⟩
  · exact .unadmitted
  · exact .unadmitted
  · exact .truth (first.equal_eq second)
  · exact .unadmitted

/-! ### Data syscalls -/

theorem respected_isKind (kind : Bytes) : L.Respected (Syscall.isKind kind) := by
  intro xs ys each
  rcases each with _ | ⟨first, _ | ⟨second, later⟩⟩
  · exact .unadmitted
  · exact .truth (by rw [first.kind_eq])
  · exact .unadmitted

theorem respected_print (sink : Syscall.Sink) : L.Respected (Syscall.print sink) := by
  intro xs ys each
  rcases each with _ | ⟨first, _ | ⟨second, later⟩⟩
  · exact .unadmitted
  · cases sink with
    | opened => exact ⟨by simp [Syscall.print, first.display_eq], .ok first⟩
    | closed => exact .plain _
  · exact .unadmitted

theorem find?_truthy (each : List.Forall₂ (L.Alike false) xs ys) :
    Option.Rel (L.Alike false) (xs.find? Value.truthy) (ys.find? Value.truthy) := by
  induction each with
  | nil => exact .none
  | cons first later ih =>
    rw [List.find?_cons, List.find?_cons, first.truthy_eq]
    split
    · exact .some first
    · exact ih

theorem respected_disjunction : L.Respected Syscall.disjunction := by
  intro xs ys each
  have first := find?_truthy each
  unfold Syscall.disjunction
  generalize xs.find? Value.truthy = x, ys.find? Value.truthy = y at first
  cases first with
  | none => exact .value (.bool false)
  | some related => exact .value related

theorem all_truthy (each : List.Forall₂ (L.Alike false) xs ys) :
    xs.all Value.truthy = ys.all Value.truthy := by
  induction each with
  | nil => rfl
  | cons first later ih => rw [List.all_cons, List.all_cons, first.truthy_eq, ih]

theorem respected_conjunction : L.Respected Syscall.conjunction := by
  intro xs ys each
  unfold Syscall.conjunction
  rw [all_truthy each]
  split
  · rw [List.getLast?_eq_getElem?, List.getLast?_eq_getElem?, each.length_eq]
    have last := getElem?_alike each (ys.length - 1)
    generalize xs[ys.length - 1]? = x, ys[ys.length - 1]? = y at last
    cases last with
    | none => exact .value (.bool true)
    | some related => exact .value related
  · exact .value (.bool false)

theorem respected_negation : L.Respected Syscall.negation := by
  intro xs ys each
  rcases each with _ | ⟨first, _ | ⟨second, later⟩⟩
  · exact .unadmitted
  · exact .truth (by rw [first.truthy_eq])
  · exact .unadmitted

theorem respected_raise : L.Respected Syscall.raise := by
  intro xs ys each
  rcases each with _ | ⟨first, _ | ⟨second, later⟩⟩
  · exact .unadmitted
  · exact ⟨rfl, .error (.language (.raise _ first))⟩
  · exact .unadmitted

theorem bindPairs_alike : ∀ {xs ys : List Value} {entries entries' : Dict Bytes Value},
    List.Forall₂ (fun x y => x.1 = y.1 ∧ L.Alike false x.2 y.2) entries entries' →
    List.Forall₂ (L.Alike false) xs ys →
    L.ReplyAlike (Syscall.bindPairs entries xs) (Syscall.bindPairs entries' ys)
  | [], _, _, _, related, .nil => .value (.of_entries related)
  | [_], _, _, _, related, .cons _ .nil => .value (.of_entries related)
  | _ :: _ :: _, _, _, _, related, .cons key (.cons value later) =>
    .withSymbol key fun s => bindPairs_alike (Alike.insert_alike related s value) later

theorem respected_makeMap : L.Respected Syscall.makeMap := by
  intro xs ys each
  unfold Syscall.makeMap
  rw [each.length_eq]
  split
  · exact .plain _
  · exact bindPairs_alike .nil each

theorem respected_mapGet : L.Respected Syscall.mapGet := by
  intro xs ys each
  rcases each with _ | ⟨first, _ | ⟨second, _ | ⟨third, later⟩⟩⟩
  · exact .unadmitted
  · exact .unadmitted
  · refine .withMap first fun {entries entries'} related => .withSymbol second fun s => ?_
    have found := Alike.find?_alike related s
    generalize Dict.find? entries s = x, Dict.find? entries' s = y at found
    cases found with
    | none => exact .value .empty
    | some alike => exact .value alike
  · exact .unadmitted

theorem respected_mapAssoc : L.Respected Syscall.mapAssoc := by
  intro xs ys each
  rcases each with _ | ⟨first, _ | ⟨second, _ | ⟨third, _ | ⟨fourth, later⟩⟩⟩⟩
  · exact .unadmitted
  · exact .unadmitted
  · exact .unadmitted
  · exact .withMap first fun related => .withSymbol second fun s =>
      .value (.of_entries (Alike.insert_alike related s third))
  · exact .unadmitted

theorem respected_mapKeys : L.Respected Syscall.mapKeys := by
  intro xs ys each
  rcases each with _ | ⟨first, _ | ⟨second, later⟩⟩
  · exact .unadmitted
  · refine .withMap first fun {entries entries'} related => ?_
    have same : Dict.keys entries = Dict.keys entries' := by
      unfold Dict.keys
      exact List.forall₂_eq_eq_eq ▸ List.forall₂_map_left_iff.mpr
        (List.forall₂_map_right_iff.mpr (related.imp fun _ _ both => both.1))
    rw [same]
    exact .value (alike_names _)
  · exact .unadmitted

end Likeness

/-! ### Tables -/

theorem SyscallTable.Respects.addAll {t : SyscallTable} (respects : t.Respects L)
    {calls : List Syscall} (each : ∀ sc ∈ calls, L.Respected sc.run) :
    (t.addAll calls).Respects L := by
  intro e member
  rcases mem_addAll member with old | ⟨sc, listed, rfl⟩
  · exact respects e old
  · exact each sc listed

theorem SyscallTable.respects_standard (L : Likeness) (sink : Syscall.Sink) :
    (standard sink).Respects L := by
  refine Respects.addAll (by intro e member; cases member) ?_
  simp only [Syscall.listCalls, Syscall.integerCalls, Syscall.dataCalls, List.forall_mem_append,
    List.forall_mem_cons]
  exact ⟨⟨⟨respected_length, respected_length, respected_cons, respected_head _, respected_head _,
    respected_tail _, respected_tail _, respected_isEmpty, respected_nth, respected_append, nofun⟩,
    respected_sum, respected_product, respected_difference, respected_compare _ _,
    respected_compare _ _, respected_equal, respected_parity _ _, respected_parity _ _, nofun⟩,
    respected_isKind _, respected_isKind _, respected_isKind _, respected_isKind _,
    respected_isKind _, respected_isKind _, respected_print _, respected_disjunction,
    respected_conjunction, respected_negation, respected_raise, respected_makeMap,
    respected_mapGet, respected_mapAssoc, respected_mapKeys, nofun⟩

/-- What a call prints is the same, and its outcomes are alike. -/
theorem Likeness.Respected.call {sc : Syscall} (respected : L.Respected sc.run) {xs ys : List Value}
    (each : List.Forall₂ (L.Alike false) xs ys) :
    (sc.call xs).1 = (sc.call ys).1 ∧
      Concur L.FailureAlike (L.Alike false) (sc.call xs).2 (sc.call ys).2 := by
  obtain ⟨printed, result⟩ := respected xs ys each
  refine ⟨printed, ?_⟩
  unfold Syscall.call
  dsimp only
  generalize (sc.run xs).result = x, (sc.run ys).result = y at result
  cases result with
  | ok alike => exact .ok alike
  | error trouble =>
    cases trouble with
    | language failure => exact .error failure
    | plain text => exact .error (.same _)

end ProcLisp
