import Mathlib.Data.List.Induction
import Mathlib.Data.List.Sort
import ProcLisp.Dict
import ProcLisp.Text.Bytes

/-!
# Look-ups in dictionaries

What an operation does to look-ups, and that the keys stay in order. A dictionary in order is told
from all others by its look-ups.
-/

namespace ProcLisp.Dict

section Lookups

variable {κ α : Type} [DecidableEq κ]

@[simp] theorem find?_nil (k : κ) : find? ([] : Dict κ α) k = none := rfl

theorem find?_cons (e : κ × α) (rest : Dict κ α) (k : κ) :
    find? (e :: rest) k = if e.1 = k then some e.2 else find? rest k := rfl

theorem mem_of_find? {d : Dict κ α} {k : κ} {v : α} (found : find? d k = some v) : (k, v) ∈ d := by
  induction d with
  | nil => cases found
  | cons e rest ih =>
    rw [find?] at found
    split at found
    · rename_i same
      obtain rfl := Option.some.inj found
      rw [← same]
      exact List.mem_cons_self
    · exact List.mem_cons_of_mem _ (ih found)

theorem find?_eq_none_iff {d : Dict κ α} {k : κ} : find? d k = none ↔ ∀ e ∈ d, e.1 ≠ k := by
  induction d with
  | nil => simp
  | cons e rest ih =>
    rw [find?]
    by_cases same : e.1 = k
    · simp [same]
    · simp [same, ih]

theorem isSome_find?_iff {d : Dict κ α} {k : κ} : (find? d k).isSome ↔ k ∈ keys d := by
  rw [Option.isSome_iff_ne_none, ne_eq, find?_eq_none_iff, keys, List.mem_map]
  push Not
  rfl

theorem find?_of_distinct {d : Dict κ α} (distinct : (keys d).Nodup) {k : κ} {v : α}
    (member : (k, v) ∈ d) : find? d k = some v := by
  induction d with
  | nil => cases member
  | cons e rest ih =>
    obtain ⟨fresh, others⟩ := List.nodup_cons.mp distinct
    rw [find?_cons]
    rcases List.mem_cons.mp member with rfl | later
    · exact if_pos rfl
    · have different : e.1 ≠ k := by
        rintro rfl
        exact fresh (List.mem_map.mpr ⟨_, later, rfl⟩)
      rw [if_neg different, ih others later]

/-- Where no key occurs twice, the order of the entries does not matter. -/
theorem find?_of_perm {d es : Dict κ α} (distinct : (keys d).Nodup) (perm : es.Perm d) (k : κ) :
    find? es k = find? d k := by
  have distinct' : (keys es).Nodup := (perm.map Prod.fst).nodup_iff.mpr distinct
  refine Option.ext fun v => ⟨fun found => ?_, fun found => ?_⟩
  · exact find?_of_distinct distinct (perm.mem_iff.mp (mem_of_find? found))
  · exact find?_of_distinct distinct' (perm.mem_iff.mpr (mem_of_find? found))

variable [LT κ] [DecidableLT κ]

theorem find?_insert (d : Dict κ α) (k : κ) (v : α) (x : κ) :
    find? (insert d k v) x = if k = x then some v else find? d x := by
  induction d with
  | nil => rfl
  | cons e rest ih =>
    rw [insert]
    by_cases before : k < e.1
    · rw [if_pos before]
      rfl
    rw [if_neg before]
    by_cases same : e.1 = k
    · rw [if_pos same, find?, find?, same]
      by_cases here : k = x
      · rw [if_pos here, if_pos here]
      · rw [if_neg here, if_neg here, if_neg here]
    · rw [if_neg same, find?, find?, ih]
      by_cases here : e.1 = x
      · rw [if_pos here, if_pos here, if_neg]
        intro there
        exact same (here.trans there.symm)
      · rw [if_neg here, if_neg here]

theorem mem_insert {d : Dict κ α} {k : κ} {v : α} {e : κ × α} (member : e ∈ insert d k v) :
    e = (k, v) ∨ e ∈ d := by
  induction d with
  | nil => exact .inl (List.mem_singleton.mp member)
  | cons first rest ih =>
    rw [insert] at member
    split at member
    · exact List.mem_cons.mp member
    split at member
    · exact (List.mem_cons.mp member).imp id (List.mem_cons_of_mem _)
    · rcases List.mem_cons.mp member with rfl | later
      · exact .inr List.mem_cons_self
      · exact (ih later).imp id (List.mem_cons_of_mem _)

end Lookups

/-! ### Keys in order -/

section Order

variable {α : Type} {d base overlay : Dict Bytes α} {k : Bytes} {v : α}

theorem distinct_of_ordered (ordered : Ordered d) : (keys d).Nodup := by
  rw [keys, List.Nodup, List.pairwise_map]
  refine ordered.imp fun {e f} less same => ?_
  rw [same] at less
  exact List.lt_irrefl _ less

theorem find?_of_mem (ordered : Ordered d) (member : (k, v) ∈ d) : find? d k = some v :=
  find?_of_distinct (distinct_of_ordered ordered) member

theorem find?_eq_some_iff (ordered : Ordered d) : find? d k = some v ↔ (k, v) ∈ d :=
  ⟨mem_of_find?, find?_of_mem ordered⟩

theorem eq_of_same_key {w : α} (ordered : Ordered d) (first : (k, v) ∈ d) (second : (k, w) ∈ d) :
    v = w := Option.some.inj ((find?_of_mem ordered first).symm.trans (find?_of_mem ordered second))

/-- The look-ups of a dictionary tell it from all others. -/
theorem eq_of_find?_eq (first : Ordered base) (second : Ordered overlay)
    (same : ∀ k, find? base k = find? overlay k) : base = overlay := by
  have : Std.Irrefl fun a b : Bytes × α => a.1 < b.1 := ⟨fun a => List.lt_irrefl a.1⟩
  have : Std.Antisymm fun a b : Bytes × α => a.1 < b.1 :=
    ⟨fun a b less greater => absurd (List.lt_trans less greater) (List.lt_irrefl a.1)⟩
  refine List.Pairwise.eq_of_mem_iff first second fun e => ?_
  rw [← find?_eq_some_iff first, ← find?_eq_some_iff second, same]

/-- The same keys with the same values make the same dictionary. -/
theorem eq_of_keys (first : Ordered base) (second : Ordered overlay)
    (same : ∀ k, k ∈ keys base ↔ k ∈ keys overlay)
    (each : ∀ k v w, (k, v) ∈ base → (k, w) ∈ overlay → v = w) : base = overlay := by
  have there : ∀ k v, (k, v) ∈ base → (k, v) ∈ overlay := by
    intro k v member
    obtain ⟨⟨_, w⟩, member', rfl⟩ := List.mem_map.mp ((same k).mp (List.mem_map_of_mem member))
    rwa [each _ v w member member']
  have back : ∀ k w, (k, w) ∈ overlay → (k, w) ∈ base := by
    intro k w member
    obtain ⟨⟨_, v⟩, member', rfl⟩ := List.mem_map.mp ((same k).mpr (List.mem_map_of_mem member))
    rwa [← each _ v w member' member]
  refine eq_of_find?_eq first second fun k => Option.ext fun v => ?_
  rw [find?_eq_some_iff first, find?_eq_some_iff second]
  exact ⟨there k v, back k v⟩

theorem ordered_insert (ordered : Ordered d) (k : Bytes) (v : α) : Ordered (insert d k v) := by
  induction d with
  | nil => exact List.pairwise_singleton _ _
  | cons e rest ih =>
    obtain ⟨least, others⟩ := List.pairwise_cons.mp ordered
    rw [insert]
    by_cases before : k < e.1
    · rw [if_pos before]
      refine List.pairwise_cons.mpr ⟨?_, ordered⟩
      intro f member
      rcases List.mem_cons.mp member with rfl | later
      · exact before
      · exact List.lt_trans before (least f later)
    rw [if_neg before]
    by_cases same : e.1 = k
    · rw [if_pos same]
      refine List.pairwise_cons.mpr ⟨?_, others⟩
      intro f member
      show k < f.1
      rw [← same]
      exact least f member
    · rw [if_neg same]
      refine List.pairwise_cons.mpr ⟨?_, ih others⟩
      intro f member
      rcases mem_insert member with rfl | later
      · exact Std.lt_of_le_of_ne before same
      · exact least f later

end Order

/-! ### Entries bound one after the other -/

/-- The value of the last entry with this key. -/
def last? {κ α : Type} [DecidableEq κ] (entries : List (κ × α)) (k : κ) : Option α :=
  ((entries.filter (·.1 = k)).getLast?).map Prod.snd

section Entries

variable {κ α : Type} [DecidableEq κ] {entries : List (κ × α)} {k : κ} {v : α}

theorem last?_concat (entries : List (κ × α)) (e : κ × α) (k : κ) :
    last? (entries ++ [e]) k = if e.1 = k then some e.2 else last? entries k := by
  unfold last?
  rw [List.filter_append]
  by_cases same : e.1 = k <;> simp [same]

theorem mem_of_last? (last : last? entries k = some v) : (k, v) ∈ entries := by
  obtain ⟨e, found, rfl⟩ := Option.map_eq_some_iff.mp last
  obtain ⟨member, same⟩ := List.mem_filter.mp (List.mem_of_getLast? found)
  rwa [← of_decide_eq_true same]

theorem isSome_last?_iff : (last? entries k).isSome ↔ k ∈ keys entries := by
  simp [last?, keys]

variable [LT κ] [DecidableLT κ]

theorem ofList_append (first more : List (κ × α)) :
    ofList (first ++ more) = more.foldl (fun d e => insert d e.1 e.2) (ofList first) :=
  List.foldl_append

theorem ofList_concat (entries : List (κ × α)) (e : κ × α) :
    ofList (entries ++ [e]) = insert (ofList entries) e.1 e.2 := ofList_append entries [e]

/-- A later entry takes the place of an earlier one. -/
theorem find?_ofList (entries : List (κ × α)) (k : κ) :
    find? (ofList entries) k = last? entries k := by
  induction entries using List.reverseRecOn with
  | nil => rfl
  | append_singleton entries e ih => rw [ofList_concat, find?_insert, last?_concat, ih]

theorem mem_keys_ofList : k ∈ keys (ofList entries) ↔ k ∈ keys entries := by
  rw [← isSome_find?_iff, find?_ofList, isSome_last?_iff]

theorem mem_of_mem_ofList {e : κ × α} (member : e ∈ ofList entries) : e ∈ entries := by
  induction entries using List.reverseRecOn with
  | nil => cases member
  | append_singleton entries last ih =>
    rw [ofList_concat] at member
    rcases mem_insert member with rfl | earlier
    · simp
    · simp [ih earlier]

theorem ordered_ofList {α : Type} (entries : List (Bytes × α)) : Ordered (ofList entries) := by
  induction entries using List.reverseRecOn with
  | nil => exact List.Pairwise.nil
  | append_singleton entries e ih =>
    rw [ofList_concat]
    exact ordered_insert ih e.1 e.2

end Entries

end ProcLisp.Dict
