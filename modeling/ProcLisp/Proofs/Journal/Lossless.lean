import ProcLisp.Journal.Basic

/-!
# Journals that keep every record

Without retention and capacity nothing expires and no record makes room for another one. Then the
records in memory are one for each pid that was recorded, and looking one up changes none of them.
-/

namespace ProcLisp.Journal

/-- The record of a pid in memory, expired or not. -/
def held? (j : Journal) (p : Pid) : Option Record := j.cache.items[p]?.map (·.record)

/-- Nothing is dropped, and each record is filed under its pid. -/
structure Lossless (j : Journal) : Prop where
  retention : j.cache.retention = 0
  capacity : j.cache.capacity = 0
  filed : ∀ {p : Pid} {i : Cached}, j.cache.items[p]? = some i → i.record.pid = p

variable {j j' : Journal} {p q : Pid} {r : Record} {now : Nat}

theorem fresh_lossless (archive : Option (Dict Bytes Bytes)) : (fresh 0 0 archive).Lossless :=
  ⟨rfl, rfl, fun found => by simp [fresh] at found⟩

theorem Lossless.closed (lossless : j.Lossless) : j.close.Lossless :=
  ⟨lossless.retention, lossless.capacity, lossless.filed⟩

theorem Lossless.expired (lossless : j.Lossless) (now : Nat) (i : Cached) :
    j.cache.expired now i = false := by
  simp [Cache.expired, lossless.retention]

theorem Cache.items_use (c : Cache) (i : Cached) (q : Pid) :
    (c.use i).items[q]? =
      if i.record.pid = q then some { i with used := c.turn } else c.items[q]? := by
  simp only [use, Std.TreeMap.getElem?_insert, Std.compare_eq_iff_eq]

/-- The use of an item files its record, and nothing else changes. -/
theorem Lossless.use (lossless : j.Lossless) (i : Cached) (archive : Option (Dict Bytes Bytes)) :
    Lossless { j with cache := j.cache.use i, archive } ∧
      ∀ q, held? { j with cache := j.cache.use i, archive } q =
        if i.record.pid = q then some i.record else j.held? q := by
  refine ⟨⟨lossless.retention, lossless.capacity, fun {q k} found => ?_⟩, fun q => ?_⟩
  · simp only [Cache.items_use] at found
    split at found
    · obtain rfl := Option.some.inj found
      assumption
    · exact lossless.filed found
  · simp only [held?, Cache.items_use]
    split <;> rfl

theorem Lossless.record (lossless : j.Lossless) (writable : j.closed = false) (now : Nat) (p : Pid)
    (reason : Value) (at? : Option Int64) :
    ∃ j', j.record now p reason at? = .ok j' ∧ j'.Lossless ∧ j'.closed = false ∧
      ∀ q, j'.held? q =
        if p = q then some ⟨p, reason, at?.getD (Int64.ofNat now)⟩ else j.held? q := by
  have cached : j.cache.set now ⟨p, reason, at?.getD (Int64.ofNat now)⟩ =
      j.cache.use ⟨⟨p, reason, at?.getD (Int64.ofNat now)⟩, now, 0⟩ := by
    simp [Cache.set, lossless.capacity]
  obtain ⟨kept, held⟩ := lossless.use ⟨⟨p, reason, at?.getD (Int64.ofNat now)⟩, now, 0⟩
    (j.archive.map fun a => Dict.insert a (key p)
      (Record.encode ⟨p, reason, at?.getD (Int64.ofNat now)⟩))
  refine ⟨_, ?_, kept, writable, held⟩
  rw [Journal.record, if_neg (by simp [writable])]
  simp only [cached]

theorem Lossless.lookup (lossless : j.Lossless) (found : j.held? p = some r) (now : Nat) :
    ∃ j', j.lookup now p = (some r, j') ∧ j'.Lossless ∧ j'.closed = j.closed ∧
      ∀ q, j'.held? q = j.held? q := by
  obtain ⟨i, item, rfl⟩ := Option.map_eq_some_iff.mp found
  obtain ⟨kept, held⟩ := lossless.use i j.archive
  have same := lossless.filed item
  refine ⟨{ j with cache := j.cache.use i }, ?_, kept, rfl, fun q => ?_⟩
  · simp [Journal.lookup, Cache.get?, item, lossless.expired]
  · rw [held]
    split
    · rename_i here
      rw [← here, same, found]
    · rfl

/-! ### The records in memory -/

theorem values_eq_map_toList {κ α : Type} {cmp : κ → κ → Ordering} (items : Std.TreeMap κ α cmp) :
    items.values = items.toList.map (·.2) := by
  have listed := Std.DTreeMap.Internal.Impl.Const.toList_eq_toListModel_map (t := items.inner.inner)
  change items.toList = _ at listed
  have valued := Std.DTreeMap.Internal.Impl.values_eq_map_snd (t := items.inner.inner)
  change items.values = _ at valued
  rw [valued, listed, List.map_map]
  rfl

theorem filter_of_distinct {κ α : Type} [DecidableEq κ] {entries : List (κ × α)}
    (distinct : entries.Pairwise fun a b => a.1 ≠ b.1) {k : κ} {v : α} (member : (k, v) ∈ entries) :
    entries.filter (·.1 = k) = [(k, v)] := by
  induction entries with
  | nil => simp at member
  | cons entry entries ih =>
    obtain ⟨others, distinct⟩ := List.pairwise_cons.mp distinct
    rcases List.mem_cons.mp member with rfl | later
    · have none : entries.filter (·.1 = k) = [] :=
        List.filter_eq_nil_iff.mpr fun e there => by simpa using (others e there).symm
      simp [none]
    · have different : entry.1 ≠ k := others _ later
      simp [different, ih distinct later]

/-- Of each pid there is one record at most, the one that a look-up finds. -/
theorem Lossless.records_of (lossless : j.Lossless) (found : j.held? p = some r) (now : Nat) :
    (j.cache.records now).filter (·.pid = p) = [r] := by
  obtain ⟨i, item, rfl⟩ := Option.map_eq_some_iff.mp found
  have unexpired : (j.cache.items.values.filter fun i => !j.cache.expired now i) =
      j.cache.items.values := List.filter_eq_self.mpr fun i _ => by simp [lossless.expired]
  have entries : (j.cache.items.toList.filter (·.1 = p)) = [(p, i)] :=
    filter_of_distinct
      (Std.TreeMap.distinct_keys_toList.imp fun apart same => apart (by simp [same]))
      (Std.TreeMap.mem_toList_iff_getElem?_eq_some.mpr item)
  have values : j.cache.items.values.filter (·.record.pid = p) = [i] := by
    have filed : j.cache.items.toList.filter (·.2.record.pid = p) =
        j.cache.items.toList.filter (·.1 = p) :=
      List.filter_congr fun e member => by
        rw [lossless.filed (Std.TreeMap.mem_toList_iff_getElem?_eq_some.mp member)]
    rw [values_eq_map_toList, List.filter_map]
    simp only [Function.comp_def, filed, entries, List.map_cons, List.map_nil]
  have sorted : (j.cache.current now).filter (·.record.pid = p) = [i] := by
    rw [← List.perm_singleton, ← values]
    unfold Cache.current
    rw [unexpired]
    exact (List.mergeSort_perm _ _).filter _
  simp [Cache.records, List.filter_map, Function.comp_def, sorted]

end ProcLisp.Journal
