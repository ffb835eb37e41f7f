import ProcLisp.Proofs.Dict
import ProcLisp.Proofs.Journal.Codec
import ProcLisp.Proofs.Journal.Lossless
import ProcLisp.Proofs.Pid

/-!
# What an archive remembers

A record may leave memory at any time, by its age, for want of room, or because the journal was
closed and opened again. The archive has the last record of every pid, and what is in memory is
never another one, so it does not show where a record is found but in the spelling of its reason.
-/

namespace ProcLisp

namespace Journal

variable {j : Journal} {c c' : Cache} {p q : Pid} {r : Record} {now : Nat}

theorem key_inj (fits : p.Fits) (fits' : q.Fits) (same : key p = key q) : p = q :=
  Pid.toBytes_inj fits fits' (List.append_cancel_left same)

/-! ### Requests -/

inductive Request where
  | record (p : Pid) (reason : Value) (exitedAt : Int64)
  | lookup (p : Pid)
  | iterate
  | size
  | close
  /-- Closes the journal and opens it again. -/
  | reopen
  /-- The cache gives up a record by itself. -/
  | forget (p : Pid)

def Request.Fits : Request → Prop
  | .record p _ _ => p.Fits
  | _ => True

instance : (request : Request) → Decidable request.Fits
  | .record p _ _ => inferInstanceAs (Decidable p.Fits)
  | .lookup _ | .iterate | .size | .close | .reopen | .forget _ => .isTrue trivial

def forget (j : Journal) (p : Pid) : Journal :=
  { j with cache := { j.cache with items := j.cache.items.erase p } }

/-- What a request leaves, at the time `now`. -/
def serve (j : Journal) (now : Nat) : Request → Journal
  | .record p reason exitedAt => match j.record now p reason (some exitedAt) with
    | .ok j => j
    | .error _ => j
  | .lookup p => (j.lookup now p).2
  | .iterate | .size => j
  | .close => j.close
  | .reopen => j.reopen
  | .forget p => j.forget p

def serveAll (j : Journal) (requests : List (Nat × Request)) : Journal :=
  requests.foldl (fun j r => j.serve r.1 r.2) j

/-- What a journal has to remember. -/
structure Ledger where
  isOpen : Bool := true
  /-- Newest first. -/
  kept : List Record := []

namespace Ledger

def enter (l : Ledger) : Request → Ledger
  | .record p reason exitedAt =>
    if l.isOpen then { l with kept := ⟨p, reason, exitedAt⟩ :: l.kept } else l
  | .close => { l with isOpen := false }
  | .reopen => { l with isOpen := true }
  | _ => l

def enterAll (l : Ledger) (requests : List (Nat × Request)) : Ledger :=
  requests.foldl (fun l r => l.enter r.2) l

/-- The last record of a pid. -/
def last? (l : Ledger) (p : Pid) : Option Record := l.kept.find? (·.pid = p)

theorem pid_of_last? {l : Ledger} (found : l.last? p = some r) : r.pid = p := by
  simpa using List.find?_some found

end Ledger

/-! ### Memory -/

/-- A cache that holds nothing but what another one held. -/
def Cache.Within (c' c : Cache) : Prop :=
  ∀ (p : Pid) (i' : Cached), c'.items[p]? = some i' →
    ∃ i, c.items[p]? = some i ∧ i'.record = i.record

/-- Each record is filed under its pid. -/
def Cache.Filed (c : Cache) : Prop :=
  ∀ (p : Pid) (i : Cached), c.items[p]? = some i → i.record.pid = p

theorem mem_of_insertMany {κ α : Type} {cmp : κ → κ → Ordering} [Std.TransCmp cmp]
    [Std.LawfulEqCmp cmp] {entries : List (κ × α)} {items : Std.TreeMap κ α cmp} {k : κ} {v : α}
    (found : (items.insertMany entries)[k]? = some v) : (k, v) ∈ entries ∨ items[k]? = some v := by
  induction entries generalizing items with
  | nil => exact .inr found
  | cons entry entries ih =>
    rw [Std.TreeMap.insertMany_cons] at found
    rcases ih found with later | earlier
    · exact .inl (.tail _ later)
    · rw [Std.TreeMap.getElem?_insert] at earlier
      split at earlier
      · rename_i same
        obtain rfl := Std.LawfulEqCmp.eq_of_compare same
        exact .inl (Option.some.inj earlier ▸ .head _)
      · exact .inr earlier

theorem Cache.mem_current {i : Cached} (member : i ∈ c.current now) :
    ∃ p : Pid, c.items[p]? = some i := by
  have value : i ∈ c.items.values := (List.mem_filter.mp (List.mem_mergeSort.mp member)).1
  rw [values_eq_map_toList] at value
  obtain ⟨⟨p, _⟩, entry, rfl⟩ := List.mem_map.mp value
  exact ⟨p, Std.TreeMap.mem_toList_iff_getElem?_eq_some.mp entry⟩

/-- Making room takes records away and changes none. -/
theorem Cache.Filed.makeRoom (filed : c.Filed) (now : Nat) : (c.makeRoom now).Within c := by
  intro p i found
  simp only [Cache.makeRoom, Std.TreeMap.ofList_eq_insertMany_empty] at found
  rcases mem_of_insertMany found with member | none
  · obtain ⟨i, kept, same⟩ := List.mem_map.mp member
    obtain ⟨rfl, rfl⟩ := Prod.mk.inj same
    have current : i ∈ c.current now := by
      split at kept
      · exact List.dropLast_subset _ kept
      · exact kept
    obtain ⟨p, there⟩ := Cache.mem_current current
    exact ⟨i, by rw [filed _ _ there]; exact there, rfl⟩
  · simp at none

theorem Cache.Filed.get? (filed : c.Filed) {c' : Cache} (found : c.get? now p = some (r, c')) :
    c'.Within c ∧ ∃ i, c.items[p]? = some i ∧ i.record = r := by
  unfold Cache.get? at found
  split at found
  · rename_i i there
    split at found
    · cases found
    obtain ⟨rfl, rfl⟩ := Prod.mk.inj (Option.some.inj found)
    refine ⟨fun q i' used => ?_, i, there, rfl⟩
    rw [Cache.items_use] at used
    split at used
    · rename_i same
      obtain rfl := Option.some.inj used
      exact ⟨i, by rw [← same, filed _ _ there]; exact there, rfl⟩
    · exact ⟨i', used, rfl⟩
  · cases found

/-- Storing a record puts it in place of the others of its pid. -/
theorem Cache.Filed.set (filed : c.Filed) (now : Nat) (r : Record) {i' : Cached}
    (found : (c.set now r).items[p]? = some i') :
    if r.pid = p then i'.record = r else ∃ i, c.items[p]? = some i ∧ i'.record = i.record := by
  unfold Cache.set at found
  rw [Cache.items_use] at found
  split at found
  · rename_i same
    obtain rfl := Option.some.inj found
    rw [if_pos same]
  · rename_i other
    rw [if_neg other]
    split at found
    · exact ⟨i', found, rfl⟩
    · exact filed.makeRoom now _ _ found

theorem archived_state (j : Journal) (p : Pid) : ∃ logs, (j.archived p).2 = { j with logs } := by
  unfold archived
  repeat' split
  all_goals exact ⟨_, rfl⟩

/-! ### Memory and archive agree -/

/-- The archive has the last record of each pid, and memory has no other one. -/
structure Coherent (j : Journal) (l : Ledger) : Prop where
  closed : j.closed = !l.isOpen
  archived : ∃ a, j.archive = some a ∧
    ∀ {p : Pid}, p.Fits → Dict.find? a (key p) = (l.last? p).map Record.encode
  cached : ∀ {p : Pid} {i : Cached}, j.cache.items[p]? = some i → l.last? p = some i.record

variable {l : Ledger}

theorem coherent_fresh (retention : Int) (capacity : Nat) :
    Coherent (fresh retention capacity (some [])) {} where
  closed := rfl
  archived := ⟨[], rfl, fun _ => rfl⟩
  cached found := by simp [fresh] at found

namespace Coherent

theorem filed (coherent : Coherent j l) : j.cache.Filed :=
  fun _ _ found => Ledger.pid_of_last? (coherent.cached found)

/-- Whatever leaves memory, the archive makes up for it. -/
theorem within (coherent : Coherent j l) (within : c'.Within j.cache) :
    Coherent { j with cache := c' } l where
  closed := coherent.closed
  archived := coherent.archived
  cached found := by
    obtain ⟨i, there, same⟩ := within _ _ found
    rw [same]
    exact coherent.cached there

theorem record (coherent : Coherent j l) (writable : j.closed = false) (now : Nat) (fits : p.Fits)
    (reason : Value) (t : Int64) :
    ∃ j', j.record now p reason (some t) = .ok j' ∧
      Coherent j' { l with kept := ⟨p, reason, t⟩ :: l.kept } := by
  obtain ⟨a, archive, archived⟩ := coherent.archived
  refine ⟨_, if_neg (by simp [writable]), coherent.closed,
    ⟨Dict.insert a (key p) (Record.encode ⟨p, reason, t⟩), by simp [archive], ?_⟩, ?_⟩
  · intro q fits'
    rw [Dict.find?_insert]
    by_cases same : p = q
    · simp [same, Ledger.last?]
    · have apart : key p ≠ key q := mt (key_inj fits fits') same
      rw [if_neg (by simpa [eq_comm] using apart), archived fits']
      simp [Ledger.last?, same]
  · intro q i found
    have stored := coherent.filed.set now ⟨p, reason, t⟩ found
    by_cases same : p = q
    · rw [if_pos same] at stored
      simp [Ledger.last?, same, stored]
    · rw [if_neg same] at stored
      obtain ⟨i₀, there, unchanged⟩ := stored
      rw [unchanged, ← coherent.cached there]
      simp [Ledger.last?, same]

/-- A look-up in the archive of an open journal. -/
theorem archived_eq (coherent : Coherent j l) (readable : j.closed = false) (fits : p.Fits) :
    j.archived p = ((l.last? p).map fun r => ⟨p, Record.decodeReason r.reason.encode, r.exitedAt⟩,
      j) := by
  obtain ⟨a, archive, archived⟩ := coherent.archived
  unfold Journal.archived
  simp only [archive, readable, archived fits]
  cases found : l.last? p with
  | none => rfl
  | some r =>
    obtain rfl := Ledger.pid_of_last? found
    simp [Record.decode_encode]

theorem serve (coherent : Coherent j l) (now : Nat) {request : Request} (fits : request.Fits) :
    Coherent (j.serve now request) (l.enter request) := by
  cases request with
  | record p reason t =>
    cases writable : j.closed with
    | true =>
      have refused : l.isOpen = false := by simpa [writable] using coherent.closed
      simpa [Journal.serve, Journal.record, writable, Ledger.enter, refused] using coherent
    | false =>
      have accepted : l.isOpen = true := by simpa [writable] using coherent.closed
      obtain ⟨j', done, later⟩ := coherent.record writable now fits reason t
      simpa [Journal.serve, done, Ledger.enter, accepted] using later
  | lookup p =>
    simp only [Journal.serve, Ledger.enter, Journal.lookup]
    split
    · rename_i found
      exact coherent.within (coherent.filed.get? found).1
    · obtain ⟨logs, same⟩ := archived_state j p
      rw [same]
      exact ⟨coherent.closed, coherent.archived, coherent.cached⟩
  | iterate => exact coherent
  | size => exact coherent
  | close => exact ⟨rfl, coherent.archived, coherent.cached⟩
  | reopen => exact ⟨rfl, coherent.archived, fun found => by simp [Journal.serve, reopen] at found⟩
  | forget p =>
    refine coherent.within fun q i found => ⟨i, ?_, rfl⟩
    rw [Std.TreeMap.getElem?_erase] at found
    split at found
    · cases found
    · exact found

theorem serveAll {requests : List (Nat × Request)} (coherent : Coherent j l)
    (fits : ∀ r ∈ requests, r.2.Fits) :
    Coherent (j.serveAll requests) (l.enterAll requests) := by
  induction requests generalizing j l with
  | nil => exact coherent
  | cons request later ih =>
    exact ih (coherent.serve request.1 (fits request (by simp)))
      fun r member => fits r (by simp [member])

/-- A look-up finds what was recorded last, in memory or in the archive. -/
theorem lookup (coherent : Coherent j l) (readable : l.isOpen) (now : Nat) (fits : p.Fits) :
    (j.lookup now p).1 = l.last? p ∨
      (j.lookup now p).1 =
        (l.last? p).map fun r => ⟨p, Record.decodeReason r.reason.encode, r.exitedAt⟩ := by
  unfold Journal.lookup
  split
  · rename_i found
    obtain ⟨-, i, there, rfl⟩ := coherent.filed.get? found
    exact .inl (coherent.cached there).symm
  · rw [coherent.archived_eq (by simp [coherent.closed, readable]) fits]
    exact .inr rfl

end Coherent

/-- While a journal with an archive is open, a look-up finds a record of a pid if one was ever
accepted, with the pid, the exit time and the reason of the last one; the reason may be the one that
is read back from the archived form. A closed journal refuses records and visits, and what it
refused is not found after it was opened again. -/
theorem archive_keeps_last_record (retention : Int) (capacity : Nat)
    (requests : List (Nat × Request)) (fits : ∀ r ∈ requests, r.2.Fits) :
    let j := (fresh retention capacity (some [])).serveAll requests
    let ledger := Ledger.enterAll {} requests
    j.closed = !ledger.isOpen ∧
    (∀ now p, ledger.isOpen → p.Fits →
      match ledger.last? p with
      | none => (j.lookup now p).1 = none
      | some last => ∃ v, (j.lookup now p).1 = some ⟨p, v, last.exitedAt⟩ ∧
          (v = last.reason ∨ Record.decode p last.encode = .ok ⟨p, v, last.exitedAt⟩)) ∧
    (ledger.isOpen = false → ∀ now,
      (∀ p reason at?, j.record now p reason at? = .error .closed) ∧
      ∀ {ρ : Type} (visit : ρ → Record → ρ × Bool) start,
        j.iterate now visit start = (start, some .closed)) := by
  intro j ledger
  have coherent : Coherent j ledger := (coherent_fresh retention capacity).serveAll fits
  refine ⟨coherent.closed, fun now p readable fits => ?_, fun refused now => ?_⟩
  · have answer := coherent.lookup readable now fits
    split
    · rename_i none
      simpa [none] using answer
    · rename_i last found
      obtain rfl := Ledger.pid_of_last? found
      rw [found] at answer
      rcases answer with exact_one | decoded
      · exact ⟨last.reason, exact_one, .inl rfl⟩
      · exact ⟨_, decoded, .inr (Record.decode_encode last)⟩
  · have closed : j.closed = true := by simp [coherent.closed, refused]
    exact ⟨fun p reason at? => by simp [record, closed], fun visit start => by simp [iterate, closed]⟩

/-- A record that was pushed out of memory by another one, after one that was refused. -/
theorem archive_keeps_last_record_pushed_out :
    let p := Pid.issued 1
    let requests : List (Nat × Request) := [(0, .record p (.int 1) 5), (1, .record p (.int 2) 6),
      (2, .close), (3, .record p (.int 3) 7), (4, .reopen), (5, .record (.issued 2) (.int 4) 8)]
    (∀ r ∈ requests, r.2.Fits) ∧ p.Fits ∧
      ∃ v, (((fresh 2 1 (some [])).serveAll requests).lookup 6 p).1 = some ⟨p, v, 6⟩ := by
  intro p requests
  have fits : ∀ r ∈ requests, r.2.Fits := by decide
  have fits' : p.Fits := by decide
  obtain ⟨-, found, -⟩ := archive_keeps_last_record 2 1 requests fits
  obtain ⟨v, same, -⟩ := found 6 p rfl fits'
  exact ⟨fits, fits', v, same⟩

end Journal
end ProcLisp
