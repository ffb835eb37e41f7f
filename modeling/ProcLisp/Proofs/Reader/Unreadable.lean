import ProcLisp.Proofs.Reader.RoundTrip

/-!
# Printed forms that are not read back

A lambda, a pid, an error and a map with entries are printed as several expressions side by side,
so that their text is never one expression. Inside a list nothing marks where such a text begins
and ends: the list is read, with more items than it had.
-/

namespace ProcLisp

namespace Value

/-- Printed as several expressions. -/
def isUnreadable : Value → Bool
  | lambda .. => true
  | pid _ => true
  | error .. => true
  | map entries => !entries.isEmpty
  | _ => false

end Value

namespace Reader

theorem length_all_glue (r : Reading) {s : Bytes} (filled : s ≠ []) : 0 < (r.glue s).all.length := by
  rw [Reading.all_glue]
  cases text : r.rest ++ s with
  | nil => simp_all
  | cons c s => simp [atoms]

/-- Two expressions at least: the one before the blank, and the one that the tail ends. -/
theorem scans_several {lead text tail : Bytes} {r : Reading} (first : IsToken lead)
    (scans : Scans text r) (last : IsToken tail) :
    ∃ s, Scans (lead ++ 0x20 :: (text ++ tail)) s ∧ 2 ≤ s.all.length := by
  obtain ⟨q, leads, one⟩ := scans_token first
  refine ⟨q.next (r.glue tail), leads.next (scans.glue last.2), ?_⟩
  have more := length_all_glue r last.1
  simp only [Reading.all_next, List.length_append, one, List.length_singleton]
  omega

theorem mem_dashed {digits : Bytes} {c : UInt8} (member : c ∈ Pid.dashed digits) :
    c ∈ digits ∨ c = 0x2d := by
  simp only [Pid.dashed, List.mem_append, List.mem_cons] at member
  rcases member with (((part | dash | part) | dash | part) | dash | part) | dash | part
  · exact .inl (List.mem_of_mem_take part)
  · exact .inr dash
  · exact .inl (List.mem_of_mem_drop (List.mem_of_mem_take part))
  · exact .inr dash
  · exact .inl (List.mem_of_mem_drop (List.mem_of_mem_take part))
  · exact .inr dash
  · exact .inl (List.mem_of_mem_drop (List.mem_of_mem_take part))
  · exact .inr dash
  · exact .inl (List.mem_of_mem_drop part)

theorem inside_pid (p : Pid) : ∀ c ∈ p.toBytes, isDelimiter c = false := by
  intro c member
  rcases mem_dashed member with digit | rfl
  · have word := Quoted.isWord_hex digit
    unfold Quoted.IsWord at word
    exact not_delimiter (by omega) (by omega) (by omega)
  · decide

theorem writeItems_sym (names : List Bytes) :
    Value.writeItems (names.map .sym) [] = Bytes.join [0x20] names := by
  match names with
  | [] => rfl
  | [s] => simp [Value.writeItems, Value.write, Bytes.join]
  | s :: t :: more =>
    have later := writeItems_sym (t :: more)
    simp only [List.map_cons] at later
    simp [Value.writeItems, Value.write, Bytes.join, later]

theorem scans_lambda {params : List Bytes} (names : ∀ s ∈ params, IsName s) (tag : Tag)
    (body : Value) (env : Env) :
    ∃ r, Scans (Value.encode (.lambda tag params body env)) r ∧ 2 ≤ r.all.length := by
  have legible : (Value.list (params.map .sym)).Legible := by
    refine .list fun v member => ?_
    obtain ⟨s, among, rfl⟩ := List.mem_map.mp member
    exact .sym (names s among)
  obtain ⟨r, scans, -⟩ := scans_legible legible
  rw [encode_list, writeItems_sym] at scans
  have text : Value.encode (.lambda tag params body env) =
      ascii "#<lambda" ++ 0x20 :: (0x28 :: (Bytes.join [0x20] params ++ [0x29]) ++ ascii ">") := by
    simp [Value.encode, Value.write, ascii]
  rw [text]
  exact scans_several (by decide) scans (by decide)

theorem scans_pid (p : Pid) : ∃ r, Scans (Value.encode (.pid p)) r ∧ 2 ≤ r.all.length := by
  have text : Value.encode (.pid p) = ascii "#<pid" ++ 0x20 :: (p.toBytes ++ ascii ">") := by
    simp [Value.encode, Value.write, ascii]
  rw [text]
  exact scans_several (by decide) (Scans.token (inside_pid p)) (by decide)

theorem scans_error {kind : Bytes} {payload : Value} {r : Reading} (name : IsName kind)
    (scans : Scans payload.encode r) :
    ∃ s, Scans (Value.encode (.error kind payload)) s ∧ 2 ≤ s.all.length := by
  have text : Value.encode (.error kind payload) =
      ascii "#<error" ++ 0x20 :: ((kind ++ 0x20 :: payload.encode) ++ ascii ">") := by
    rw [Value.encode, Value.write, Value.write_eq_encode_append]
    simp [ascii]
  rw [text]
  exact scans_several (by decide) ((Scans.token name.token.2).next scans) (by decide)

theorem scans_all {items : List Value} (each : ∀ v ∈ items, ∃ r, Scans v.encode r) :
    ∃ r, Scans (Value.writeItems items []) r := by
  have read : ∀ v ∈ items,
      ∃ r, Scans v.encode r ∧ r.all = ((parse v.encode).toOption.getD []) := by
    intro v member
    obtain ⟨r, scans⟩ := each v member
    exact ⟨r, scans, by rw [parse_of_scans scans]; rfl⟩
  obtain ⟨r, scans, -⟩ := scans_items read
  exact ⟨r, scans⟩

/-- The first key, and what is between it and the end of a map. -/
theorem scans_entries {k : Bytes} {x : Value} {entries : Dict Bytes Value}
    (names : ∀ l y, (l, y) ∈ entries → IsName l)
    (each : ∀ l y, (l, y) ∈ (k, x) :: entries → ∃ r, Scans y.encode r) :
    ∃ text r, Value.writeEntries ((k, x) :: entries) [] = k ++ 0x20 :: text ∧ Scans text r := by
  induction entries generalizing k x with
  | nil =>
    obtain ⟨r, scans⟩ := each k x (by simp)
    exact ⟨x.encode, r, rfl, scans⟩
  | cons entry entries ih =>
    obtain ⟨l, y⟩ := entry
    obtain ⟨r, scans⟩ := each k x (by simp)
    obtain ⟨text, s, written, later⟩ := ih (k := l) (x := y)
      (fun l y member => names l y (by simp [member])) fun l y member => each l y (by simp_all)
    refine ⟨x.encode ++ 0x20 :: (l ++ 0x20 :: text), _, ?_,
      scans.next ((Scans.token (names l y (by simp)).token.2).next later)⟩
    rw [Value.writeEntries, Value.write_eq_encode_append, written]

theorem scans_map {entries : Dict Bytes Value} (filled : entries ≠ [])
    (names : ∀ k x, (k, x) ∈ entries → IsName k)
    (each : ∀ k x, (k, x) ∈ entries → ∃ r, Scans x.encode r) :
    ∃ r, Scans (Value.encode (.map entries)) r ∧ 2 ≤ r.all.length := by
  match entries with
  | [] => exact absurd rfl filled
  | (k, x) :: entries =>
    obtain ⟨text, r, written, scans⟩ :=
      scans_entries (fun l y member => names l y (by simp [member])) each
    have whole : Value.encode (.map ((k, x) :: entries)) =
        (0x7b :: k) ++ 0x20 :: (text ++ [0x7d]) := by
      rw [Value.encode, Value.write, ← List.nil_append [0x7d], Value.writeEntries_append, written]
      simp
    have key : IsToken (0x7b :: k) := by
      refine ⟨by simp, fun c member => ?_⟩
      rcases List.mem_cons.mp member with rfl | inside
      · decide
      · exact (names k x (by simp)).token.2 c inside
    rw [whole]
    exact scans_several key scans (by decide)

/-- Every printed value is a text that the reader accepts. -/
theorem scans_wellFormed {v : Value} (formed : v.WellFormed) :
    ∃ r, Scans v.encode r ∧ (v.isUnreadable → 2 ≤ r.all.length) := by
  have scalar : ∀ {v : Value}, v.Legible →
      ∃ r, Scans v.encode r ∧ (v.isUnreadable → 2 ≤ r.all.length) := by
    intro v legible
    obtain ⟨r, scans, -⟩ := scans_legible legible
    refine ⟨r, scans, fun unreadable => ?_⟩
    cases legible <;> simp [Value.isUnreadable] at unreadable
  induction formed with
  | int n => exact scalar (.int n)
  | bool b => exact scalar (.bool b)
  | sym name => exact scalar (.sym name)
  | str s => exact scalar (.str s)
  | @list items _ ih =>
    obtain ⟨r, scans⟩ := scans_all fun v member => (ih v member).imp fun _ => And.left
    exact ⟨_, encode_list items ▸ scans.list, by simp [Value.isUnreadable]⟩
  | @map entries _ names _ ih =>
    by_cases filled : entries = []
    · subst filled
      have braces : IsToken [0x7b, 0x7d] := by decide
      exact ⟨_, Scans.token braces.2, by simp [Value.isUnreadable]⟩
    · obtain ⟨r, scans, several⟩ :=
        scans_map filled names fun k x member => (ih k x member).imp fun _ => And.left
      exact ⟨r, scans, fun _ => several⟩
  | lambda names =>
    obtain ⟨r, scans, several⟩ := scans_lambda names _ _ _
    exact ⟨r, scans, fun _ => several⟩
  | pid p =>
    obtain ⟨r, scans, several⟩ := scans_pid p
    exact ⟨r, scans, fun _ => several⟩
  | error name _ ih =>
    obtain ⟨r, scans, -⟩ := ih
    obtain ⟨s, scans, several⟩ := scans_error name scans
    exact ⟨s, scans, fun _ => several⟩

theorem parseOne_list {items : List Value} (each : ∀ v ∈ items, v.WellFormed) :
    ∃ vs, parseOne (Value.encode (.list items)) = .ok (.list vs) := by
  obtain ⟨r, scans⟩ := scans_all fun v member =>
    (scans_wellFormed (each v member)).imp fun _ => And.left
  refine ⟨r.all, ?_⟩
  rw [parseOne_eq_ok, encode_list, parse_of_scans scans.list]
  rfl

theorem parseOne_unreadable {v : Value} (formed : v.WellFormed) (unreadable : v.isUnreadable) :
    ∃ e, parseOne v.encode = .error e := by
  obtain ⟨r, scans, several⟩ := scans_wellFormed formed
  cases parsed : parseOne v.encode with
  | error e => exact ⟨e, rfl⟩
  | ok w =>
    rw [parseOne_eq_ok, parse_of_scans scans] at parsed
    have one := congrArg List.length (Except.ok.inj parsed)
    have two := several unreadable
    simp only [List.length_singleton] at one
    omega

end Reader
end ProcLisp
