import Mathlib.Data.List.Forall2
import ProcLisp.Proofs.Journal.Archive

/-!
# Walking the archive

Iteration visits the records of an archive in the order of their keys, up to a visit that asks for
no more or an entry that cannot be read. The error names the entry by its key, or by the key that a
record of its pid has; the two differ where the pid is spelled in another way.
-/

namespace ProcLisp.Journal

variable {j : Journal} {a : Dict Bytes Bytes} {l : Ledger} {p : Pid} {r : Record} {c : Corruption}
  {k bytes : Bytes} {e : Bytes × Bytes} {now : Nat}

/-- The pid that a key is read as. -/
def named (k : Bytes) : Except Pid.Fault Pid := Pid.parse (k.drop keyLead.length)

/-- The record in an entry: eight bytes of its time come before the text of its reason. -/
inductive Holds : Bytes × Bytes → Record → Prop
  | intro {k time text : Bytes} {p : Pid} (name : named k = .ok p) (whole : time.length = 8) :
      Holds (k, time ++ text) ⟨p, Record.decodeReason text, (ofBigEndian time).toInt64⟩

/-- What is wrong with an entry, and the key that it is reported under. -/
inductive Spoilt : Bytes × Bytes → Corruption → Prop
  | nameless {k bytes : Bytes} {f : Pid.Fault} (name : named k = .error f) :
      Spoilt (k, bytes) ⟨k, f.message⟩
  | short {k bytes : Bytes} {p : Pid} (name : named k = .ok p) (short : bytes.length < 8) :
      Spoilt (k, bytes) ⟨key p, ascii "record shorter than its timestamp"⟩

theorem ofEntry_holds (read : ofEntry k bytes = .ok r) : Holds (k, bytes) r := by
  unfold ofEntry at read
  split at read
  · cases read
  · rename_i p name
    unfold Record.decode at read
    split at read
    · cases read
    · rename_i long
      obtain rfl := Except.ok.inj read
      have whole : (bytes.take 8).length = 8 := by simp; omega
      have holds : Holds (k, bytes.take 8 ++ bytes.drop 8) _ := .intro name whole
      rwa [List.take_append_drop] at holds

theorem ofEntry_spoilt (failed : ofEntry k bytes = .error c) : Spoilt (k, bytes) c := by
  unfold ofEntry at failed
  split at failed
  · rename_i f name
    obtain rfl := Except.error.inj failed
    exact .nameless name
  · rename_i p name
    unfold Record.decode at failed
    split at failed
    · rename_i short
      obtain rfl := Except.error.inj failed
      exact .short name short
    · cases failed

theorem named_key (fits : p.Fits) : named (key p) = .ok p := by
  rw [named, key, List.drop_left, Pid.parse_toBytes fits]

/-- An entry is reported under its own key if that is no pid's, or the one that its pid has. -/
theorem Spoilt.key_eq_iff (spoilt : Spoilt e c) :
    c.key = e.1 ↔ (∃ f, named e.1 = .error f) ∨ ∃ p, named e.1 = .ok p ∧ e.1 = key p := by
  cases spoilt with
  | nameless name => exact iff_of_true rfl (.inl ⟨_, name⟩)
  | @short k bytes p name short =>
    refine ⟨fun same => .inr ⟨p, name, same.symm⟩, ?_⟩
    rintro (⟨f, other⟩ | ⟨q, other, same⟩)
    · cases name.symm.trans other
    · obtain rfl := Except.ok.inj (name.symm.trans other)
      exact same.symm

/-! ### Visits -/

/-- Whether every record gets a visit and every visit asks for the next one. -/
def visitsAll {ρ : Type} (visit : ρ → Record → ρ × Bool) : ρ → List Record → Bool
  | _, [] => true
  | acc, r :: rest =>
    let (acc, more) := visit acc r
    more && visitsAll visit acc rest

/-- The entries that are records by their keys. -/
def entries (a : Dict Bytes Bytes) : List (Bytes × Bytes) :=
  a.filter fun e => keyLead.isPrefixOf e.1

/-- The records that entries hold, up to the first entry that holds none. -/
inductive Reads : List (Bytes × Bytes) → List Record → Option Corruption → Prop
  | done : Reads [] [] none
  | stuck {e : Bytes × Bytes} {c : Corruption} (spoilt : Spoilt e c) (rest : List (Bytes × Bytes)) :
      Reads (e :: rest) [] (some c)
  | next {e : Bytes × Bytes} {r : Record} {rest : List (Bytes × Bytes)} {rs : List Record}
      {c : Option Corruption} (holds : Holds e r) (later : Reads rest rs c) :
      Reads (e :: rest) (r :: rs) c

/-- What is visited does not depend on the visits, but for how far they go. -/
theorem visitArchive_reads (a : Dict Bytes Bytes) :
    ∃ rs c, Reads (entries a) rs c ∧
      ∀ {ρ : Type} (visit : ρ → Record → ρ × Bool) (acc : ρ), visitArchive visit acc a =
        (visitAll visit acc rs, if visitsAll visit acc rs then c else none) := by
  induction a with
  | nil => exact ⟨[], none, .done, fun visit acc => rfl⟩
  | cons e rest ih =>
    obtain ⟨k, bytes⟩ := e
    obtain ⟨rs, c, reads, visited⟩ := ih
    by_cases lead : keyLead.isPrefixOf k
    · have first : entries ((k, bytes) :: rest) = (k, bytes) :: entries rest := by
        simp [entries, lead]
      rw [first]
      cases read : ofEntry k bytes with
      | error c =>
        refine ⟨[], some c, .stuck (ofEntry_spoilt read) _, fun visit acc => ?_⟩
        simp [visitArchive, lead, read, visitAll, visitsAll]
      | ok r =>
        refine ⟨r :: rs, c, .next (ofEntry_holds read) reads, fun visit acc => ?_⟩
        simp only [visitArchive, lead, read, visitAll, visitsAll, if_true]
        by_cases more : (visit acc r).2 <;> simp [more, visited]
    · have first : entries ((k, bytes) :: rest) = entries rest := by simp [entries, lead]
      rw [first]
      refine ⟨rs, c, reads, fun visit acc => ?_⟩
      simp [visitArchive, lead, visited]

/-- With keys in order, the records that are read are those of the smaller keys. -/
theorem Reads.split {es : List (Bytes × Bytes)} {rs : List Record} {failure : Option Corruption}
    (ordered : es.Pairwise (·.1 < ·.1)) (reads : Reads es rs failure) :
    (failure = none → List.Forall₂ Holds es rs) ∧
      ∀ c, failure = some c →
        ∃ e ∈ es, Spoilt e c ∧ List.Forall₂ Holds (es.filter (·.1 < e.1)) rs := by
  induction reads with
  | done => exact ⟨fun _ => .nil, nofun⟩
  | stuck spoilt rest =>
    rename_i e c
    refine ⟨nofun, fun c same => ⟨e, List.mem_cons_self, Option.some.inj same ▸ spoilt, ?_⟩⟩
    have none : (e :: rest).filter (·.1 < e.1) = [] := by
      refine List.filter_eq_nil_iff.mpr fun f member => ?_
      rcases List.mem_cons.mp member with rfl | later
      · simp
      · have above : e.1 < f.1 := List.rel_of_pairwise_cons ordered later
        simpa using List.le_of_lt above
    exact none ▸ .nil
  | next holds later ih =>
    rename_i first r rest rs failure
    obtain ⟨all, smaller⟩ := ih ordered.of_cons
    refine ⟨fun none => .cons holds (all none), fun c some => ?_⟩
    obtain ⟨e, member, spoilt, before⟩ := smaller c some
    have above : first.1 < e.1 := List.rel_of_pairwise_cons ordered member
    refine ⟨e, List.mem_cons_of_mem _ member, spoilt, ?_⟩
    rw [List.filter_cons_of_pos (by simpa using above)]
    exact .cons holds before

/-- What iteration of an open journal visits, whoever wrote to its archive. -/
theorem iterate_archive (readable : j.closed = false) {a : Dict Bytes Bytes}
    (archive : j.archive = some a) (ordered : Dict.Ordered a) :
    ∃ rs failure,
      (∀ {ρ : Type} now (visit : ρ → Record → ρ × Bool) start, j.iterate now visit start =
        (visitAll visit start rs,
          if visitsAll visit start rs then failure.map .corrupt else none)) ∧
      (failure = none → List.Forall₂ Holds (entries a) rs) ∧
      ∀ c, failure = some c → ∃ e ∈ entries a, Spoilt e c ∧
        List.Forall₂ Holds ((entries a).filter (·.1 < e.1)) rs := by
  obtain ⟨rs, failure, reads, visited⟩ := visitArchive_reads a
  refine ⟨rs, failure, fun now visit start => ?_, reads.split (ordered.filter _)⟩
  simp only [iterate, readable, archive, visited, Bool.false_eq_true, if_false]
  split <;> rfl

/-! ### Edits -/

/-- A request, or an entry that somebody else writes to the archive. -/
inductive Edit where
  | request (now : Nat) (request : Request)
  | put (k bytes : Bytes)

def edit (j : Journal) : Edit → Journal
  | .request now request => j.serve now request
  | .put k bytes => j.put k bytes

def editAll (j : Journal) (edits : List Edit) : Journal := edits.foldl edit j

theorem editAll_request (j : Journal) (requests : List (Nat × Request)) :
    j.editAll (requests.map fun r => .request r.1 r.2) = j.serveAll requests := by
  simp only [editAll, serveAll, List.foldl_map, edit]

/-- A request changes the archive by one record at most. -/
theorem archive_serve (j : Journal) (now : Nat) (request : Request) :
    (j.serve now request).archive = j.archive ∨
      ∃ p reason t, request = .record p reason t ∧ (j.serve now request).archive =
        j.archive.map fun a => Dict.insert a (key p) (Record.encode ⟨p, reason, t⟩) := by
  cases request with
  | record p reason t =>
    cases writable : j.closed with
    | true => exact .inl (by simp [serve, record, writable])
    | false => exact .inr ⟨p, reason, t, rfl, by simp [serve, record, writable]⟩
  | lookup p =>
    refine .inl ?_
    simp only [serve, lookup]
    split
    · rfl
    · obtain ⟨logs, same⟩ := archived_state j p
      rw [same]
  | iterate | size | close | reopen | forget p => exact .inl rfl

theorem edit_ordered (ordered : ∃ a, j.archive = some a ∧ Dict.Ordered a) (change : Edit) :
    ∃ a, (j.edit change).archive = some a ∧ Dict.Ordered a := by
  obtain ⟨a, archive, ordered⟩ := ordered
  cases change with
  | request now request =>
    rcases archive_serve j now request with same | ⟨p, reason, t, -, added⟩
    · exact ⟨a, same.trans archive, ordered⟩
    · rw [archive] at added
      exact ⟨_, added, Dict.ordered_insert ordered (key p) _⟩
  | put k bytes => exact ⟨_, by simp [edit, put, archive], Dict.ordered_insert ordered k bytes⟩

theorem editAll_ordered (edits : List Edit) (ordered : ∃ a, j.archive = some a ∧ Dict.Ordered a) :
    ∃ a, (j.editAll edits).archive = some a ∧ Dict.Ordered a := by
  induction edits generalizing j with
  | nil => exact ordered
  | cons change later ih => exact ih (edit_ordered ordered change)

/-! ### Archives that only requests have written to -/

/-- Every entry is filed under a pid, and every pid that was recorded fits. -/
structure Filed (j : Journal) (l : Ledger) : Prop where
  archived : ∀ a, j.archive = some a → ∀ e ∈ a, ∃ p : Pid, p.Fits ∧ e.1 = key p
  kept : ∀ r ∈ l.kept, r.pid.Fits

theorem filed_fresh (retention : Int) (capacity : Nat) :
    Filed (fresh retention capacity (some [])) {} where
  archived := by
    rintro a archive e member
    obtain rfl := Option.some.inj archive
    cases member
  kept := nofun

theorem Filed.serve (filed : Filed j l) (now : Nat) {request : Request} (fits : request.Fits) :
    Filed (j.serve now request) (l.enter request) where
  archived := by
    rcases archive_serve j now request with same | ⟨p, reason, t, rfl, added⟩
    · rw [same]
      exact filed.archived
    · intro a' archive e member
      rw [added] at archive
      obtain ⟨a, before, rfl⟩ := Option.map_eq_some_iff.mp archive
      rcases Dict.mem_insert member with rfl | old
      · exact ⟨p, fits, rfl⟩
      · exact filed.archived a before e old
  kept := by
    cases request with
    | record p reason t =>
      intro r member
      simp only [Ledger.enter] at member
      split at member
      · rcases List.mem_cons.mp member with rfl | old
        · exact fits
        · exact filed.kept r old
      · exact filed.kept r member
    | _ => exact filed.kept

theorem Filed.serveAll {requests : List (Nat × Request)} (filed : Filed j l)
    (fits : ∀ r ∈ requests, r.2.Fits) : Filed (j.serveAll requests) (l.enterAll requests) := by
  induction requests generalizing j l with
  | nil => exact filed
  | cons request later ih =>
    exact ih (filed.serve request.1 (fits request (by simp)))
      fun r member => fits r (by simp [member])

theorem Holds.decode (holds : Holds e r) :
    named e.1 = .ok r.pid ∧ Record.decode r.pid e.2 = .ok r := by
  obtain ⟨name, whole⟩ := holds
  refine ⟨name, ?_⟩
  simp [Record.decode, whole, List.take_left' whole, List.drop_left' whole]

/-- An entry that a request has written holds the last record of its pid. -/
theorem Coherent.entry {a : Dict Bytes Bytes} (coherent : Coherent j l) (filed : Filed j l)
    (archive : j.archive = some a) (ordered : Dict.Ordered a) (member : e ∈ a) :
    ∃ p last, p.Fits ∧ e = (key p, last.encode) ∧ l.last? p = some last := by
  obtain ⟨p, fits, name⟩ := filed.archived a archive e member
  obtain ⟨a', same, archived⟩ := coherent.archived
  obtain rfl := Option.some.inj (archive.symm.trans same)
  have found : Dict.find? a (key p) = some e.2 := Dict.find?_of_mem ordered (name ▸ member)
  rw [archived fits] at found
  obtain ⟨last, there, encoded⟩ := Option.map_eq_some_iff.mp found
  exact ⟨p, last, fits, Prod.ext name encoded.symm, there⟩

theorem Coherent.not_spoilt {a : Dict Bytes Bytes} (coherent : Coherent j l) (filed : Filed j l)
    (archive : j.archive = some a) (ordered : Dict.Ordered a) (member : e ∈ a) : ¬Spoilt e c := by
  obtain ⟨p, last, fits, rfl, -⟩ := coherent.entry filed archive ordered member
  intro spoilt
  cases spoilt with
  | nameless name => cases name.symm.trans (named_key fits)
  | short name short =>
    have long : (Record.encode last).length = 8 + last.reason.encode.length := by
      simp [Record.encode, bigEndian]
    omega

/-- What is read from an entry is the last record of its pid. -/
theorem Coherent.last_of_holds {a : Dict Bytes Bytes} (coherent : Coherent j l) (filed : Filed j l)
    (archive : j.archive = some a) (ordered : Dict.Ordered a) (member : e ∈ a) (holds : Holds e r) :
    e.1 = key r.pid ∧
      ∃ last, l.last? r.pid = some last ∧ Record.decode r.pid last.encode = .ok r := by
  obtain ⟨p, last, fits, rfl, found⟩ := coherent.entry filed archive ordered member
  obtain ⟨name, decoded⟩ := holds.decode
  obtain rfl := Except.ok.inj ((named_key fits).symm.trans name)
  exact ⟨rfl, last, found, decoded⟩

theorem Filed.fits_of_last? (filed : Filed j l) (found : l.last? p = some r) : p.Fits :=
  Ledger.pid_of_last? found ▸ filed.kept r (List.mem_of_find?_eq_some found)

theorem Coherent.mem_entries {a : Dict Bytes Bytes} (coherent : Coherent j l) (filed : Filed j l)
    (archive : j.archive = some a) (found : l.last? p = some r) :
    (key p, r.encode) ∈ entries a := by
  obtain ⟨a', same, archived⟩ := coherent.archived
  obtain rfl := Option.some.inj (archive.symm.trans same)
  have there := archived (filed.fits_of_last? found)
  rw [found] at there
  refine List.mem_filter.mpr ⟨Dict.mem_of_find? there, ?_⟩
  simp [key]

/-- Each record is read from an entry under its own key, and is the last one of its pid. -/
theorem Coherent.lasts {a : Dict Bytes Bytes} (coherent : Coherent j l) (filed : Filed j l)
    (archive : j.archive = some a) (ordered : Dict.Ordered a) {rs : List Record}
    (all : List.Forall₂ Holds (entries a) rs) :
    rs.map (fun r => key r.pid) = (entries a).map (·.1) ∧
      ∀ r ∈ rs, ∃ last, l.last? r.pid = some last ∧ Record.decode r.pid last.encode = .ok r := by
  have holds := (List.forall₂_and_left _ _).mpr
    ⟨fun e (member : e ∈ entries a) => (List.mem_filter.mp member).1, all⟩
  have lasts : List.Forall₂ (fun r e => (∃ last, l.last? r.pid = some last ∧
      Record.decode r.pid last.encode = .ok r) ∧ key r.pid = e.1) rs (entries a) := by
    refine List.Forall₂.flip (holds.imp fun e r there => ?_)
    obtain ⟨name, last⟩ := coherent.last_of_holds filed archive ordered there.1 there.2
    exact ⟨last, name.symm⟩
  obtain ⟨last, keyed⟩ := (List.forall₂_and_left _ _).mp lasts
  refine ⟨?_, last⟩
  rw [← List.forall₂_eq_eq_eq, List.forall₂_map_left_iff, List.forall₂_map_right_iff]
  exact keyed

/-- What was recorded is visited, and nothing else. -/
theorem Coherent.mem_pids {a : Dict Bytes Bytes} (coherent : Coherent j l) (filed : Filed j l)
    (archive : j.archive = some a) {rs : List Record}
    (keys : rs.map (fun r => key r.pid) = (entries a).map (·.1))
    (last : ∀ r ∈ rs, ∃ last, l.last? r.pid = some last ∧
      Record.decode r.pid last.encode = .ok r) (p : Pid) :
    p ∈ rs.map (·.pid) ↔ (l.last? p).isSome := by
  rw [List.mem_map, Option.isSome_iff_exists]
  constructor
  · rintro ⟨r, member, rfl⟩
    obtain ⟨before, found, -⟩ := last r member
    exact ⟨before, found⟩
  · rintro ⟨before, found⟩
    have member : key p ∈ (entries a).map (·.1) :=
      List.mem_map.mpr ⟨_, coherent.mem_entries filed archive found, rfl⟩
    rw [← keys] at member
    obtain ⟨r, member, same⟩ := List.mem_map.mp member
    obtain ⟨other, found', -⟩ := last r member
    exact ⟨r, member, key_inj (filed.fits_of_last? found') (filed.fits_of_last? found) same⟩

/-- For every history of requests and entries written by others, iteration of an open journal visits
the records of the archive in ascending key order, for as long as the visits ask for more. It fails
at the first entry whose pid cannot be read or whose value is shorter than a time, after the records
of the smaller keys; the key that it reports is the entry's own unless the pid can be read and the
key is another spelling than the pid's own. If all entries come from requests, it does not fail and
visits the last record of every pid that was ever recorded. -/
theorem iterate_walks_archive (retention : Int) (capacity : Nat) :
    (∀ edits : List Edit,
      let j := (fresh retention capacity (some [])).editAll edits
      j.closed = false → ∃ a rs failure, j.archive = some a ∧ Dict.Ordered a ∧
        (∀ {ρ : Type} now (visit : ρ → Record → ρ × Bool) start, j.iterate now visit start =
          (visitAll visit start rs,
            if visitsAll visit start rs then failure.map .corrupt else none)) ∧
        (failure = none → List.Forall₂ Holds (entries a) rs) ∧
        ∀ c, failure = some c → ∃ e ∈ entries a, Spoilt e c ∧
          (c.key = e.1 ↔ (∃ f, named e.1 = .error f) ∨ ∃ p, named e.1 = .ok p ∧ e.1 = key p) ∧
          List.Forall₂ Holds ((entries a).filter (·.1 < e.1)) rs) ∧
    (∀ requests : List (Nat × Request), (∀ r ∈ requests, r.2.Fits) →
      let j := (fresh retention capacity (some [])).serveAll requests
      let ledger := Ledger.enterAll {} requests
      ledger.isOpen → ∃ rs : List Record,
        (∀ {ρ : Type} now (visit : ρ → Record → ρ × Bool) start,
          j.iterate now visit start = (visitAll visit start rs, none)) ∧
        rs.Pairwise (fun r later => key r.pid < key later.pid) ∧
        (∀ p, p ∈ rs.map (·.pid) ↔ (ledger.last? p).isSome) ∧
        ∀ r ∈ rs, ∃ last, ledger.last? r.pid = some last ∧
          Record.decode r.pid last.encode = .ok r) := by
  refine ⟨fun edits => ?_, fun requests fits => ?_⟩
  · intro j readable
    obtain ⟨a, archive, ordered⟩ : ∃ a, j.archive = some a ∧ Dict.Ordered a :=
      editAll_ordered edits ⟨[], rfl, .nil⟩
    obtain ⟨rs, failure, visited, all, smaller⟩ := iterate_archive readable archive ordered
    refine ⟨a, rs, failure, archive, ordered, visited, all, fun c some => ?_⟩
    obtain ⟨e, member, spoilt, before⟩ := smaller c some
    exact ⟨e, member, spoilt, spoilt.key_eq_iff, before⟩
  · intro j ledger accepting
    obtain ⟨a, archive, ordered⟩ : ∃ a, j.archive = some a ∧ Dict.Ordered a := by
      have start : ∃ a, (fresh retention capacity (some [])).archive = some a ∧ Dict.Ordered a :=
        ⟨[], rfl, .nil⟩
      have ordered := editAll_ordered (requests.map fun r => .request r.1 r.2) start
      rwa [editAll_request] at ordered
    have coherent : Coherent j ledger := (coherent_fresh retention capacity).serveAll fits
    have filed : Filed j ledger := (filed_fresh retention capacity).serveAll fits
    have readable : j.closed = false := by simp [coherent.closed, accepting]
    obtain ⟨rs, failure, visited, all, smaller⟩ := iterate_archive readable archive ordered
    have sound : failure = none := by
      cases failure with
      | none => rfl
      | some c =>
        obtain ⟨e, member, spoilt, -⟩ := smaller c rfl
        exact absurd spoilt
          (coherent.not_spoilt filed archive ordered (List.mem_filter.mp member).1)
    subst sound
    obtain ⟨keys, last⟩ := coherent.lasts filed archive ordered (all rfl)
    refine ⟨rs, fun now visit start => by simp [visited], ?_,
      coherent.mem_pids filed archive keys last, last⟩
    have ascending : ((entries a).map (·.1)).Pairwise (· < ·) :=
      List.pairwise_map.mpr (ordered.filter _)
    rw [← keys] at ascending
    exact List.pairwise_map.mp ascending

/-- One pid is recorded twice, and the other history spoils the archive besides. -/
theorem iterate_walks_archive_two_histories :
    let p := Pid.issued 1
    let requests : List (Nat × Request) := [(0, .record p (.int 1) 5), (1, .record p (.int 2) 6)]
    let j := (fresh 2 1 (some [])).editAll
      [.request 0 (.record p (.int 1) 5), .put (keyLead ++ ascii "spoilt") []]
    let j' := (fresh 2 1 (some [])).serveAll requests
    (j.closed = false ∧ ∃ a rs failure, j.archive = some a ∧
      j.iterate 2 (fun n _ => (n + 1, true)) 0 =
        (visitAll (fun n _ => (n + 1, true)) 0 rs,
          if visitsAll (fun n _ => (n + 1, true)) 0 rs then failure.map .corrupt else none) ∧
      (failure = none → List.Forall₂ Holds (entries a) rs)) ∧
    (∀ r ∈ requests, r.2.Fits) ∧ (Ledger.enterAll {} requests).isOpen ∧
      ∃ rs : List Record, j'.iterate 2 (fun n _ => (n + 1, true)) 0 =
        (visitAll (fun n _ => (n + 1, true)) 0 rs, none) ∧ p ∈ rs.map (·.pid) := by
  intro p requests j j'
  obtain ⟨edited, served⟩ := iterate_walks_archive 2 1
  have fits : ∀ r ∈ requests, r.2.Fits := by decide
  refine ⟨⟨rfl, ?_⟩, fits, rfl, ?_⟩
  · obtain ⟨a, rs, failure, archive, -, visited, all, -⟩ :=
      edited [.request 0 (.record p (.int 1) 5), .put (keyLead ++ ascii "spoilt") []] rfl
    exact ⟨a, rs, failure, archive, visited 2 _ 0, all⟩
  · obtain ⟨rs, visited, -, pids, -⟩ := served requests fits rfl
    exact ⟨rs, visited 2 _ 0, (pids p).mpr rfl⟩

/-- The key that is reported is in no entry of the archive. -/
theorem iterate_reports_other_key :
    let k := keyLead ++ Bytes.hex 32 (Pid.issued 9).val
    let j := (fresh 0 0 (some [])).put k (ascii "abc")
    j.archive = some [(k, ascii "abc")] ∧ key (.issued 9) ≠ k ∧
      j.iterate 0 (fun n _ => (n + 1, true)) 0 =
        (0, some (.corrupt ⟨key (.issued 9), ascii "record shorter than its timestamp"⟩)) := by
  decide +kernel

end ProcLisp.Journal
