import Mathlib.Algebra.BigOperators.Group.List.Basic
import Mathlib.Algebra.Ring.Int.Parity
import Mathlib.Data.Int.ModEq
import ProcLisp.Proofs.Syscall.Table

/-!
# Arithmetic without bounds

The integer syscalls wrap at every step, and so what they answer is the exact result modulo 2^64. It
does not matter in which order a sum or a product is given, or how it is cut into calls.
-/

namespace ProcLisp.Syscall

/-! ### Arguments that are numbers -/

theorem ints_map (ns : List Int64) : ints (ns.map .int) = .ok ns := by
  induction ns with
  | nil => rfl
  | cons n ns ih =>
    rw [List.map_cons, ints, ih]
    rfl

theorem ints_of_other (ns : List Int64) {v : Value} (other : ∀ n, v ≠ .int n) (rest : List Value) :
    ints (ns.map .int ++ v :: rest) = .error v := by
  induction ns with
  | nil =>
    rw [List.map_nil, List.nil_append, ints]
    exact other
  | cons n ns ih =>
    rw [List.map_cons, List.cons_append, ints, ih]
    rfl

theorem withInts_map (name : Bytes) (ns : List Int64) (f : List Int64 → Reply) :
    withInts name (ns.map .int) f = f ns := by
  rw [withInts, ints_map]

theorem withInts_of_other (name : Bytes) (ns : List Int64) {v : Value} (other : ∀ n, v ≠ .int n)
    (rest : List Value) (f : List Int64 → Reply) :
    withInts name (ns.map .int ++ v :: rest) f = .expected name Kind.int v := by
  rw [withInts, ints_of_other ns other]

/-- All integer syscalls but equality look at their arguments in the same way first. -/
theorem run_eq_withInts : ∀ sc ∈ integerCalls, sc.name ≠ ascii "=" →
    ∃ f, ∀ args, sc.run args = withInts sc.name args f := by
  simp only [integerCalls, List.forall_mem_cons]
  exact ⟨fun _ => ⟨_, fun _ => rfl⟩, fun _ => ⟨_, fun _ => rfl⟩, fun _ => ⟨_, fun _ => rfl⟩,
    fun _ => ⟨_, fun _ => rfl⟩, fun _ => ⟨_, fun _ => rfl⟩, fun different => absurd rfl different,
    fun _ => ⟨_, fun _ => rfl⟩, fun _ => ⟨_, fun _ => rfl⟩, nofun⟩

/-! ### Wrapping -/

theorem toInt_ofInt_modEq (x : Int) : (Int64.ofInt x).toInt ≡ x [ZMOD 2 ^ 64] := by
  rw [Int64.toInt_ofInt]
  exact Int.bmod_emod

/-- Wrapping at every step comes to the same as wrapping once at the end. -/
theorem foldl_ofInt {op : Int64 → Int64 → Int64} {exact : Int → Int → Int}
    (wraps : ∀ a b, Int64.ofInt (exact a b) = op (Int64.ofInt a) (Int64.ofInt b)) (ns : List Int64)
    (a : Int) : ns.foldl op (Int64.ofInt a) = Int64.ofInt ((ns.map Int64.toInt).foldl exact a) := by
  induction ns generalizing a with
  | nil => rfl
  | cons n ns ih =>
    have step : op (Int64.ofInt a) n = Int64.ofInt (exact a n.toInt) := by
      rw [wraps, Int64.ofInt_toInt]
    rw [List.foldl_cons, step, ih, List.map_cons, List.foldl_cons]

theorem foldl_sub (x : Int) (xs : List Int) : xs.foldl (· - ·) x = x - xs.sum := by
  induction xs generalizing x with
  | nil => simp
  | cons y ys ih => rw [List.foldl_cons, ih, List.sum_cons, Int.sub_sub]

theorem sum_map (ns : List Int64) :
    sum (ns.map .int) = .value (.int (.ofInt (ns.map Int64.toInt).sum)) := by
  rw [sum, withInts_map, List.sum_eq_foldl]
  exact congrArg (fun r => Reply.value (.int r)) (foldl_ofInt Int64.ofInt_add ns 0)

theorem product_map (ns : List Int64) :
    product (ns.map .int) = .value (.int (.ofInt (ns.map Int64.toInt).prod)) := by
  rw [product, withInts_map, List.prod_eq_foldl]
  exact congrArg (fun r => Reply.value (.int r)) (foldl_ofInt Int64.ofInt_mul ns 1)

theorem difference_single (n : Int64) :
    difference ([n].map .int) = .value (.int (.ofInt (-n.toInt))) := by
  rw [Int64.ofInt_neg, Int64.ofInt_toInt]
  rfl

theorem difference_map (n m : Int64) (ns : List Int64) :
    difference ((n :: m :: ns).map .int) =
      .value (.int (.ofInt (n.toInt - ((m :: ns).map Int64.toInt).sum))) := by
  rw [difference, withInts_map, ← foldl_sub]
  refine congrArg (fun r => Reply.value (.int r)) ?_
  rw [← foldl_ofInt Int64.ofInt_sub, Int64.ofInt_toInt]

/-! ### Parity -/

theorem toInt_remainder (n : Int64) : (remainder n).toInt = n.toInt % 2 := by
  have divided : (n % 2).toInt = n.toInt.tmod 2 := Int64.toInt_mod n 2
  have truncated : n.toInt.tmod 2 = n.toInt % 2 - if 0 ≤ n.toInt ∨ 2 ∣ n.toInt then 0 else 2 := by
    rw [Int.tmod_eq_emod]
    split <;> rfl
  unfold remainder
  by_cases negative : n % 2 < 0
  · have below : n.toInt.tmod 2 < 0 := by
      rwa [Int64.lt_iff_toInt_lt, divided, Int64.toInt_zero] at negative
    have sign : n.toInt.tmod 2 = -1 ∧ n.toInt % 2 = 1 := by
      split at truncated <;> omega
    rw [if_pos negative, Int64.toInt_neg, divided, sign.1, sign.2]
    rfl
  · have above : 0 ≤ n.toInt.tmod 2 := by
      rwa [Int64.lt_iff_toInt_lt, divided, Int64.toInt_zero, Int.not_lt] at negative
    rw [if_neg negative, divided]
    split at truncated <;> omega

theorem remainder_eq_zero_iff (n : Int64) : remainder n = 0 ↔ Even n.toInt := by
  rw [← Int64.toInt_inj, toInt_remainder, Int64.toInt_zero, Int.even_iff]

theorem remainder_eq_one_iff (n : Int64) : remainder n = 1 ↔ Odd n.toInt := by
  rw [← Int64.toInt_inj, toInt_remainder, Int64.toInt_one, Int.odd_iff]

/-! ### Calls within calls -/

/-- How arguments are distributed over calls of one syscall. -/
inductive Grouping where
  | arg (n : Int64)
  | call (parts : List Grouping)

namespace Grouping

mutual

/-- All arguments, from left to right. -/
def args : Grouping → List Int64
  | arg n => [n]
  | call parts => allArgs parts

def allArgs : List Grouping → List Int64
  | [] => []
  | g :: gs => g.args ++ allArgs gs

end

mutual

/-- What the calls answer, inner calls first. -/
def answer (t : SyscallTable) (name : Bytes) : Grouping → Except Failure Value
  | arg n => .ok (.int n)
  | call parts => do
    let vs ← answers t name parts
    (t.invoke name vs).2

def answers (t : SyscallTable) (name : Bytes) : List Grouping → Except Failure (List Value)
  | [] => .ok []
  | g :: gs => do
    let v ← g.answer t name
    let vs ← answers t name gs
    .ok (v :: vs)

end

/-- Called with numbers, a syscall answers their total, and totals add up. -/
structure Totals (t : SyscallTable) (name : Bytes) (total : List Int64 → Int64)
    (op : Int64 → Int64 → Int64) : Prop where
  invoked : ∀ ns, t.invoke name (ns.map .int) = ([], .ok (.int (total ns)))
  single : ∀ n, total [n] = n
  append : ∀ ns ms, total (ns ++ ms) = op (total ns) (total ms)
  perm : ∀ {ns ms}, ns.Perm ms → total ns = total ms

variable {t : SyscallTable} {name : Bytes} {total : List Int64 → Int64}
  {op : Int64 → Int64 → Int64}

mutual

theorem answer_eq (totals : Totals t name total op) (g : Grouping) :
    g.answer t name = .ok (.int (total g.args)) := by
  cases g with
  | arg n => rw [answer, args, totals.single]
  | call parts =>
    obtain ⟨ns, found, same⟩ := answers_eq totals parts
    rw [answer, args, found]
    show (t.invoke name (ns.map .int)).2 = _
    rw [totals.invoked, same]

/-- The answers to the parts have the total of all their arguments. -/
theorem answers_eq (totals : Totals t name total op) (gs : List Grouping) :
    ∃ ns : List Int64, answers t name gs = .ok (ns.map .int) ∧ total ns = total (allArgs gs) := by
  cases gs with
  | nil => exact ⟨[], rfl, rfl⟩
  | cons g gs =>
    obtain ⟨ns, found, same⟩ := answers_eq totals gs
    refine ⟨total g.args :: ns, ?_, ?_⟩
    · rw [answers, answer_eq totals g, found]
      rfl
    · have first := totals.append [total g.args] ns
      rw [totals.single] at first
      rw [allArgs, totals.append, ← same]
      exact first

end

end Grouping

/-! ### The standard table -/

section Standard

open SyscallTable

variable (sink : Sink)

theorem invoke_integer {sc : Syscall} (listed : sc ∈ integerCalls) {args : List Value}
    (admitted : sc.admits args.length) : (standard sink).invoke sc.name args = sc.call args :=
  invoke_standard (by simp [listed]) admitted

theorem invoke_value (sc : Syscall) (listed : sc ∈ integerCalls) {args : List Value} {v : Value}
    (admitted : sc.admits args.length) (answered : sc.run args = .value v) :
    (standard sink).invoke sc.name args = ([], .ok v) :=
  (invoke_integer sink listed admitted).trans (call_of_value answered)

theorem invoke_sum (ns : List Int64) :
    (standard sink).invoke (ascii "+") (ns.map .int) =
      ([], .ok (.int (.ofInt (ns.map Int64.toInt).sum))) :=
  invoke_value sink { name := ascii "+", arity := 0, variadic := true, run := sum }
    (by simp [integerCalls]) (by simp [admits]) (sum_map ns)

theorem invoke_product (ns : List Int64) :
    (standard sink).invoke (ascii "*") (ns.map .int) =
      ([], .ok (.int (.ofInt (ns.map Int64.toInt).prod))) :=
  invoke_value sink { name := ascii "*", arity := 0, variadic := true, run := product }
    (by simp [integerCalls]) (by simp [admits]) (product_map ns)

theorem invoke_difference {n r : Int64} {ns : List Int64}
    (answered : difference ((n :: ns).map .int) = .value (.int r)) :
    (standard sink).invoke (ascii "-") ((n :: ns).map .int) = ([], .ok (.int r)) :=
  invoke_value sink { name := ascii "-", arity := 1, variadic := true, run := difference }
    (by simp [integerCalls]) (by simp [admits]) answered

theorem invoke_even (n : Int64) :
    (standard sink).invoke (ascii "even?") [.int n] = ([], .ok (.bool (decide (Even n.toInt)))) := by
  rw [← decide_eq_decide.mpr (remainder_eq_zero_iff n)]
  exact invoke_value sink { name := ascii "even?", arity := 1, run := parity (ascii "even?") 0 }
    (by simp [integerCalls]) (by simp [admits]) rfl

theorem invoke_odd (n : Int64) :
    (standard sink).invoke (ascii "odd?") [.int n] = ([], .ok (.bool (decide (Odd n.toInt)))) := by
  rw [← decide_eq_decide.mpr (remainder_eq_one_iff n)]
  exact invoke_value sink { name := ascii "odd?", arity := 1, run := parity (ascii "odd?") 1 }
    (by simp [integerCalls]) (by simp [admits]) rfl

/-- The first argument that is no number is named, whatever follows it. -/
theorem invoke_of_other {sc : Syscall} (listed : sc ∈ integerCalls) (arithmetic : sc.name ≠ ascii "=")
    (ns : List Int64) {v : Value} (other : ∀ n, v ≠ .int n) (rest : List Value)
    (admitted : sc.admits (ns.map Value.int ++ v :: rest).length) :
    (standard sink).invoke sc.name (ns.map .int ++ v :: rest) =
      ([], .error (.syscallFailed sc.name (sc.name ++ ascii ": expected int, got " ++ v.encode))) := by
  obtain ⟨f, run⟩ := run_eq_withInts sc listed arithmetic
  have text : sc.run (ns.map .int ++ v :: rest) =
      .plain (sc.name ++ ascii ": expected int, got " ++ v.encode) := by
    have words : ascii ": expected int, got " = ascii ": expected " ++ Kind.int ++ ascii ", got " := rfl
    rw [run, withInts_of_other sc.name ns other, Reply.expected, words]
    simp only [List.append_assoc]
  exact (invoke_integer sink listed admitted).trans (call_of_plain text)

theorem totals_sum : Grouping.Totals (standard sink) (ascii "+")
    (fun ns => .ofInt (ns.map Int64.toInt).sum) (· + ·) where
  invoked := invoke_sum sink
  single n := by simp
  append ns ms := by rw [List.map_append, List.sum_append, Int64.ofInt_add]
  perm same := by rw [(same.map Int64.toInt).sum_eq]

theorem totals_product : Grouping.Totals (standard sink) (ascii "*")
    (fun ns => .ofInt (ns.map Int64.toInt).prod) (· * ·) where
  invoked := invoke_product sink
  single n := by simp
  append ns ms := by rw [List.map_append, List.prod_append, Int64.ofInt_mul]
  perm same := by rw [(same.map Int64.toInt).prod_eq]

/-- Integer syscalls answer what is exact modulo 2^64. Sums and products do not depend on the order of
their arguments, nor on how they are distributed over calls. -/
theorem integer_calls_are_exact :
    (∀ ns : List Int64, ∃ r : Int64, (standard sink).invoke (ascii "+") (ns.map .int) =
        ([], .ok (.int r)) ∧ r.toInt ≡ (ns.map Int64.toInt).sum [ZMOD 2 ^ 64]) ∧
      (∀ ns : List Int64, ∃ r : Int64, (standard sink).invoke (ascii "*") (ns.map .int) =
        ([], .ok (.int r)) ∧ r.toInt ≡ (ns.map Int64.toInt).prod [ZMOD 2 ^ 64]) ∧
      (∀ n : Int64, ∃ r : Int64, (standard sink).invoke (ascii "-") [.int n] = ([], .ok (.int r)) ∧
        r.toInt ≡ -n.toInt [ZMOD 2 ^ 64]) ∧
      (∀ (n m : Int64) (ns : List Int64), ∃ r : Int64,
        (standard sink).invoke (ascii "-") ((n :: m :: ns).map .int) = ([], .ok (.int r)) ∧
          r.toInt ≡ n.toInt - ((m :: ns).map Int64.toInt).sum [ZMOD 2 ^ 64]) ∧
      (∀ name ∈ [ascii "+", ascii "*"], ∀ g h : Grouping, g.args.Perm h.args →
        ∃ r : Int64, g.answer (standard sink) name = .ok (.int r) ∧
          h.answer (standard sink) name = .ok (.int r)) ∧
      (∀ n : Int64,
        (standard sink).invoke (ascii "even?") [.int n] = ([], .ok (.bool (decide (Even n.toInt)))) ∧
        (standard sink).invoke (ascii "odd?") [.int n] = ([], .ok (.bool (decide (Odd n.toInt))))) ∧
      (∀ sc ∈ integerCalls, sc.name ≠ ascii "=" → ∀ (ns : List Int64) (v : Value) (rest : List Value),
        (∀ n, v ≠ .int n) → sc.admits (ns.map Value.int ++ v :: rest).length →
        (standard sink).invoke sc.name (ns.map .int ++ v :: rest) = ([], .error (.syscallFailed sc.name
          (sc.name ++ ascii ": expected int, got " ++ v.encode)))) := by
  refine ⟨?_, ?_, ?_, ?_, ?_, ?_, ?_⟩
  · exact fun ns => ⟨_, invoke_sum sink ns, toInt_ofInt_modEq _⟩
  · exact fun ns => ⟨_, invoke_product sink ns, toInt_ofInt_modEq _⟩
  · intro n
    have negated := invoke_difference sink (difference_single n)
    exact ⟨_, negated, toInt_ofInt_modEq _⟩
  · intro n m ns
    exact ⟨_, invoke_difference sink (difference_map n m ns), toInt_ofInt_modEq _⟩
  · intro name either g h same
    rcases List.mem_pair.mp either with rfl | rfl
    · have totals := totals_sum sink
      exact ⟨_, g.answer_eq totals, (totals.perm same) ▸ h.answer_eq totals⟩
    · have totals := totals_product sink
      exact ⟨_, g.answer_eq totals, (totals.perm same) ▸ h.answer_eq totals⟩
  · exact fun n => ⟨invoke_even sink n, invoke_odd sink n⟩
  · exact fun sc listed arithmetic ns v rest other admitted =>
      invoke_of_other sink listed arithmetic ns other rest admitted

/-- The sum of the greatest int and one wraps, however it is cut into calls, and the least int has no
negation of its own. -/
theorem integer_calls_are_exact_at_bounds :
    let g := Grouping.call [.call [.arg Int64.maxValue, .arg 1], .call [], .arg 5]
    let h := Grouping.call [.arg 5, .call [.arg 1, .arg Int64.maxValue]]
    (∃ r : Int64, g.answer (standard .opened) (ascii "+") = .ok (.int r) ∧
      h.answer (standard .opened) (ascii "+") = .ok (.int r)) ∧
    (∃ r : Int64, (standard .opened).invoke (ascii "-") [.int Int64.minValue] = ([], .ok (.int r)) ∧
      r.toInt ≡ 2 ^ 63 [ZMOD 2 ^ 64]) ∧
    (standard .opened).invoke (ascii "*") [.int 2, .bool true, .str []] =
      ([], .error (.syscallFailed (ascii "*") (ascii "*: expected int, got #t"))) := by
  intro g h
  obtain ⟨-, -, negated, -, grouped, -, refused⟩ := integer_calls_are_exact .opened
  have same : g.args.Perm h.args := by decide
  refine ⟨grouped _ (by simp) g h same, negated Int64.minValue, ?_⟩
  exact refused { name := ascii "*", arity := 0, variadic := true, run := product }
    (by simp [integerCalls]) (by decide) [2] (.bool true) [.str []] nofun (by decide)

end Standard

end ProcLisp.Syscall
