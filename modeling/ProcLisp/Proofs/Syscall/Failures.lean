import ProcLisp.Proofs.Syscall.Table
import ProcLisp.Syscall.Standard

/-!
# How syscalls of the standard table fail

One syscall fails with its argument, because programs call it to fail. All others fail with a text.
-/

namespace ProcLisp

/-- It fails with a text, if at all. -/
def Reply.Tells (r : Reply) : Prop := ∀ f, r.result ≠ .error (.language f)

namespace Reply.Tells

variable {v : Value}

theorem value (v : Value) : (Reply.value v).Tells := nofun

theorem plain (text : Bytes) : (Reply.plain text).Tells := nofun

theorem unadmitted : Reply.unadmitted.Tells := nofun

theorem expected (name want : Bytes) (v : Value) : (Reply.expected name want v).Tells := nofun

theorem withList (name : Bytes) (v : Value) {f : List Value → Reply} (each : ∀ xs, (f xs).Tells) :
    (Syscall.withList name v f).Tells := by
  unfold Syscall.withList
  split
  · exact each _
  · exact expected _ _ _

theorem withMap (name : Bytes) (v : Value) {f : Dict Bytes Value → Reply}
    (each : ∀ xs, (f xs).Tells) : (Syscall.withMap name v f).Tells := by
  unfold Syscall.withMap
  split
  · exact each _
  · exact expected _ _ _

theorem withSymbol (name : Bytes) (v : Value) {f : Bytes → Reply} (each : ∀ s, (f s).Tells) :
    (Syscall.withSymbol name v f).Tells := by
  unfold Syscall.withSymbol
  split
  · exact each _
  · exact expected _ _ _

theorem withInts (name : Bytes) (args : List Value) {f : List Int64 → Reply}
    (each : ∀ ns, (f ns).Tells) : (Syscall.withInts name args f).Tells := by
  unfold Syscall.withInts
  split
  · exact each _
  · exact expected _ _ _

end Reply.Tells

namespace Syscall

theorem tells_length (args : List Value) : (length args).Tells := by
  unfold length
  repeat' split
  all_goals nofun

theorem tells_nth (args : List Value) : (nth args).Tells := by
  unfold nth
  split
  · refine .withList _ _ fun items => ?_
    repeat' split
    all_goals nofun
  · nofun

theorem tells_head (name : Bytes) (args : List Value) : (head name args).Tells := by
  unfold head
  split
  · refine .withList _ _ fun items => ?_
    split
    · exact .plain _
    · exact .value _
  · exact .unadmitted

theorem tells_append (args : List Value) : (append args).Tells := by
  have step : ∀ items, (append.go items args).Tells := by
    induction args with
    | nil => exact fun items => .value _
    | cons v rest ih => exact fun items => .withList _ _ fun more => ih (items ++ more)
  exact step []

theorem tells_bindPairs : ∀ (args : List Value) (entries : Dict Bytes Value),
    (bindPairs entries args).Tells
  | [], _ => .value _
  | [_], _ => .value _
  | _ :: _ :: rest, _ => .withSymbol _ _ fun _ => tells_bindPairs rest _

theorem tells_makeMap (args : List Value) : (makeMap args).Tells := by
  unfold makeMap
  split
  · nofun
  · exact tells_bindPairs args []

theorem tells_cons (args : List Value) : (cons args).Tells := by
  unfold cons
  split
  · exact .withList _ _ fun items => .value _
  · nofun

theorem tells_tail (name : Bytes) (args : List Value) : (tail name args).Tells := by
  unfold tail
  split
  · exact .withList _ _ fun items => .value _
  · nofun

theorem tells_isEmpty (args : List Value) : (isEmpty args).Tells := by
  unfold isEmpty
  split
  · exact .withList _ _ fun items => .value _
  · nofun

theorem tells_difference (args : List Value) : (difference args).Tells :=
  .withInts _ _ fun ns => by split <;> nofun

theorem tells_compare (name : Bytes) (holds : Int64 → Int64 → Bool) (args : List Value) :
    (compare name holds args).Tells := .withInts _ _ fun ns => by split <;> nofun

theorem tells_equal (args : List Value) : (equal args).Tells := by
  unfold equal
  split <;> nofun

theorem tells_parity (name : Bytes) (rem : Int64) (args : List Value) :
    (parity name rem args).Tells := .withInts _ _ fun ns => by split <;> nofun

theorem tells_isKind (kind : Bytes) (args : List Value) : (isKind kind args).Tells := by
  unfold isKind
  split <;> nofun

theorem tells_print (sink : Sink) (args : List Value) : (print sink args).Tells := by
  unfold print
  repeat' split
  all_goals nofun

theorem tells_negation (args : List Value) : (negation args).Tells := by
  unfold negation
  split <;> nofun

theorem tells_mapGet (args : List Value) : (mapGet args).Tells := by
  unfold mapGet
  split
  · exact .withMap _ _ fun entries => .withSymbol _ _ fun s => .value _
  · nofun

theorem tells_mapAssoc (args : List Value) : (mapAssoc args).Tells := by
  unfold mapAssoc
  split
  · exact .withMap _ _ fun entries => .withSymbol _ _ fun s => .value _
  · nofun

theorem tells_mapKeys (args : List Value) : (mapKeys args).Tells := by
  unfold mapKeys
  split
  · exact .withMap _ _ fun entries => .value _
  · nofun

/-- Its failures in the language are errors that programs raise, with an argument for a payload. -/
def Raises (run : List Value → Reply) : Prop :=
  ∀ args f, (run args).result = .error (.language f) → ∃ v ∈ args, f = .user v

theorem Raises.of {run : List Value → Reply} (tells : ∀ args, (run args).Tells) :
    Raises run := fun args f failed => absurd failed (tells args f)

theorem raises_raise : Raises raise := by
  intro args f failed
  unfold raise at failed
  split at failed
  · rename_i v
    exact ⟨v, by simp, (Trouble.language.inj (Except.error.inj failed)).symm⟩
  · cases failed

end Syscall

open Syscall Syscall.Raises

theorem SyscallTable.raises_standard {sink : Sink} {e : Bytes × Syscall}
    (member : e ∈ standard sink) : Raises e.2.run := by
  have listed : ∀ sc ∈ listCalls ++ integerCalls ++ dataCalls sink, Raises sc.run := by
    simp only [listCalls, integerCalls, dataCalls, List.forall_mem_append, List.forall_mem_cons]
    exact ⟨⟨⟨of tells_length, of tells_length, of tells_cons, of (tells_head _), of (tells_head _),
      of (tells_tail _), of (tells_tail _), of tells_isEmpty, of tells_nth, of tells_append, nofun⟩,
      of fun args => .withInts _ _ fun ns => .value _,
      of fun args => .withInts _ _ fun ns => .value _, of tells_difference,
      of (tells_compare _ _), of (tells_compare _ _), of tells_equal, of (tells_parity _ _),
      of (tells_parity _ _), nofun⟩,
      of (tells_isKind _), of (tells_isKind _), of (tells_isKind _), of (tells_isKind _),
      of (tells_isKind _), of (tells_isKind _), of (tells_print _), of fun args => .value _,
      of fun args => .value _, of tells_negation, raises_raise, of tells_makeMap, of tells_mapGet,
      of tells_mapAssoc, of tells_mapKeys, nofun⟩
  rcases mem_addAll member with none | ⟨sc, there, rfl⟩
  · cases none
  · exact listed sc there

end ProcLisp
