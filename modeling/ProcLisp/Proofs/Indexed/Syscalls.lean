import ProcLisp.Proofs.Indexed.Reads
import ProcLisp.Proofs.Results
import ProcLisp.Proofs.Syscall.Table
import ProcLisp.Syscall.Standard

/-!
# Syscalls that read their arguments by position

Every syscall of the standard table has a body here that reads its arguments, and the items of a
list, at fixed positions. Called with as many built arguments as the syscall admits, the body runs
into no fault and answers what the syscall does.
-/

namespace ProcLisp.Indexed

open Syscall (Sink)

variable {name : Bytes} {args : List Value}

abbrev Body := List Value → Checked Reply

/-! ### Bodies -/

def unary (run : List Value → Reply) : Body := fun args => do
  let v ← read args 0
  .ok (run [v])

def binary (run : List Value → Reply) : Body := fun args => do
  let v ← read args 0
  let w ← read args 1
  .ok (run [v, w])

def ternary (run : List Value → Reply) : Body := fun args => do
  let u ← read args 0
  let v ← read args 1
  let w ← read args 2
  .ok (run [u, v, w])

/-- A body that goes through its arguments, however many there are. -/
def variadic (run : List Value → Reply) : Body := fun args => .ok (run args)

def withList (name : Bytes) (v : Value) (f : List Value → Checked Reply) : Checked Reply :=
  match v with
  | .list items => f items
  | v => .ok (.expected name Kind.list v)

def withInts (name : Bytes) (args : List Value) (f : List Int64 → Checked Reply) : Checked Reply :=
  match Syscall.ints args with
  | .ok ns => f ns
  | .error v => .ok (.expected name Kind.int v)

def head (name : Bytes) : Body := fun args => do
  let v ← read args 0
  withList name v fun items =>
    if items.length = 0 then .ok (.plain (name ++ ascii ": empty list"))
    else do
      let x ← read items 0
      .ok (.value x)

def tail (name : Bytes) : Body := fun args => do
  let v ← read args 0
  withList name v fun items =>
    if items.length = 0 then .ok (.value .empty)
    else do
      let rest ← slice items 1
      .ok (.value (.list rest))

def nth : Body := fun args => do
  let v ← read args 0
  withList (ascii "nth") v fun items => do
    let index ← read args 1
    match index with
    | .int n =>
      if n < 0 ∨ items.length ≤ n.toInt.toNat then
        .ok (.plain (ascii "nth: index " ++ Bytes.ofInt n.toInt ++ ascii " out of range [0," ++
          Bytes.ofNat items.length ++ ascii ")"))
      else do
        let x ← read items n.toInt.toNat
        .ok (.value x)
    | index => .ok (.expected (ascii "nth") Kind.int index)

def difference : Body := fun args =>
  withInts (ascii "-") args fun ns =>
    if ns.length = 1 then do
      let n ← read ns 0
      .ok (.value (.int (-n)))
    else do
      let n ← read ns 0
      let rest ← slice ns 1
      .ok (.value (.int (rest.foldl (· - ·) n)))

def compare (name : Bytes) (holds : Int64 → Int64 → Bool) : Body := fun args =>
  withInts name args fun ns => do
    let a ← read ns 0
    let b ← read ns 1
    .ok (.value (.bool (holds a b)))

def parity (name : Bytes) (rem : Int64) : Body := fun args =>
  withInts name args fun ns => do
    let n ← read ns 0
    .ok (.value (.bool (Syscall.remainder n == rem)))

def equality : Body := fun args => do
  let v ← read args 0
  let w ← read args 1
  let same ← equal v w
  .ok (.value (.bool same))

/-- Binds alternating keys and values from position `i` on. -/
def bindPairs (args : List Value) (entries : Dict Bytes Value) (i : Nat) : Checked Reply :=
  if i < args.length then do
    let k ← read args i
    match k with
    | .sym s => do
      let v ← read args (i + 1)
      bindPairs args (Dict.insert entries s v) (i + 2)
    | k => .ok (.expected (ascii "map") Kind.symbol k)
  else .ok (.value (.map entries))
termination_by args.length - i

def makeMap : Body := fun args =>
  if args.length % 2 ≠ 0 then
    .ok (.plain (ascii "map: odd number of arguments (" ++ Bytes.ofNat args.length ++ ascii ")"))
  else bindPairs args [] 0

/-- The bodies of the standard table; `print` writes to `sink`. -/
def bodies (sink : Sink) : List (Bytes × Body) :=
  [(ascii "len", unary Syscall.length),
   (ascii "size", unary Syscall.length),
   (ascii "cons", binary Syscall.cons),
   (ascii "car", head (ascii "car")),
   (ascii "first", head (ascii "first")),
   (ascii "cdr", tail (ascii "cdr")),
   (ascii "rest", tail (ascii "rest")),
   (ascii "empty?", unary Syscall.isEmpty),
   (ascii "nth", nth),
   (ascii "append", variadic Syscall.append),
   (ascii "+", variadic Syscall.sum),
   (ascii "*", variadic Syscall.product),
   (ascii "-", difference),
   (ascii "<", compare (ascii "<") (· < ·)),
   (ascii ">", compare (ascii ">") (· > ·)),
   (ascii "=", equality),
   (ascii "even?", parity (ascii "even?") 0),
   (ascii "odd?", parity (ascii "odd?") 1),
   (ascii "list?", unary (Syscall.isKind Kind.list)),
   (ascii "symbol?", unary (Syscall.isKind Kind.symbol)),
   (ascii "int?", unary (Syscall.isKind Kind.int)),
   (ascii "string?", unary (Syscall.isKind Kind.string)),
   (ascii "pid?", unary (Syscall.isKind Kind.pid)),
   (ascii "bool?", unary (Syscall.isKind Kind.bool)),
   (ascii "print", unary (Syscall.print sink)),
   (ascii "or", variadic Syscall.disjunction),
   (ascii "and", variadic Syscall.conjunction),
   (ascii "not", unary Syscall.negation),
   (ascii "error", unary Syscall.raise),
   (ascii "map", makeMap),
   (ascii "get", binary Syscall.mapGet),
   (ascii "assoc", ternary Syscall.mapAssoc),
   (ascii "keys", unary Syscall.mapKeys)]

/-- The body of that name; a name without one is out of range. -/
def body (sink : Sink) (name : Bytes) (args : List Value) : Checked Reply :=
  match (bodies sink).lookup name with
  | some f => f args
  | none => .error .range

/-! ### What the bodies answer -/

/-- With as many built arguments as are admitted the body answers what the syscall does. -/
def Implements (f : Body) (sc : Syscall) : Prop :=
  ∀ args : List Value, sc.admits args.length → (∀ v ∈ args, v.Built) → f args = .ok (sc.run args)

section Bodies

variable {sc : Syscall}

theorem length_of_admits {n : Nat} (fixed : sc.variadic = false) (arity : sc.arity = n)
    (admitted : sc.admits args.length) : args.length = n := by
  unfold Syscall.admits at admitted
  rw [fixed, arity] at admitted
  have same : (n : Int) = args.length := by simpa using admitted
  omega

theorem implements_unary (fixed : sc.variadic = false) (arity : sc.arity = (1 : Nat)) :
    Implements (unary sc.run) sc := by
  intro args admitted _
  obtain ⟨v, rfl⟩ := List.length_eq_one_iff.mp (length_of_admits fixed arity admitted)
  rfl

theorem implements_binary (fixed : sc.variadic = false) (arity : sc.arity = (2 : Nat)) :
    Implements (binary sc.run) sc := by
  intro args admitted _
  obtain ⟨v, w, rfl⟩ := List.length_eq_two.mp (length_of_admits fixed arity admitted)
  rfl

theorem implements_ternary (fixed : sc.variadic = false) (arity : sc.arity = (3 : Nat)) :
    Implements (ternary sc.run) sc := by
  intro args admitted _
  obtain ⟨u, v, w, rfl⟩ := List.length_eq_three.mp (length_of_admits fixed arity admitted)
  rfl

theorem implements_variadic (sc : Syscall) : Implements (variadic sc.run) sc := fun _ _ _ => rfl

theorem withList_eq {f : List Value → Checked Reply} {g : List Value → Reply}
    (same : ∀ items, f items = .ok (g items)) (name : Bytes) (v : Value) :
    withList name v f = .ok (Syscall.withList name v g) := by
  cases v <;> first | exact same _ | rfl

theorem length_ints {ns : List Int64} (numbers : Syscall.ints args = .ok ns) :
    ns.length = args.length := by
  induction args generalizing ns with
  | nil =>
    obtain rfl := Except.ok.inj numbers
    rfl
  | cons v args ih =>
    cases v with
    | int n =>
      obtain ⟨later, rest, rfl⟩ := exists_of_map_ok numbers
      exact congrArg (· + 1) (ih rest)
    | _ => cases numbers

theorem withInts_eq {f : List Int64 → Checked Reply} {g : List Int64 → Reply}
    (same : ∀ ns : List Int64, ns.length = args.length → f ns = .ok (g ns)) (name : Bytes) :
    withInts name args f = .ok (Syscall.withInts name args g) := by
  unfold withInts Syscall.withInts
  cases numbers : Syscall.ints args with
  | error v => rfl
  | ok ns => exact same ns (length_ints numbers)

theorem implements_head (name : Bytes) :
    Implements (head name) { name := name, arity := 1, run := Syscall.head name } := by
  intro args admitted _
  obtain ⟨v, rfl⟩ := List.length_eq_one_iff.mp (length_of_admits rfl rfl admitted)
  refine withList_eq (fun items => ?_) name v
  cases items <;> rfl

theorem implements_tail (name : Bytes) :
    Implements (tail name) { name := name, arity := 1, run := Syscall.tail name } := by
  intro args admitted _
  obtain ⟨v, rfl⟩ := List.length_eq_one_iff.mp (length_of_admits rfl rfl admitted)
  refine withList_eq (fun items => ?_) name v
  cases items with
  | nil => rfl
  | cons x rest =>
    show (do
      let rest ← slice (x :: rest) 1
      Except.ok (Reply.value (.list rest))) = _
    rw [slice_of_le (by simp)]
    rfl

theorem implements_nth :
    Implements nth { name := ascii "nth", arity := 2, run := Syscall.nth } := by
  intro args admitted _
  obtain ⟨v, index, rfl⟩ := List.length_eq_two.mp (length_of_admits rfl rfl admitted)
  refine withList_eq (fun items => ?_) (ascii "nth") v
  cases index with
  | int n =>
    show (if n < 0 ∨ items.length ≤ n.toInt.toNat then _ else _) = _
    dsimp only
    by_cases negative : n < 0
    · rw [if_pos (.inl negative), if_pos negative]
    rw [if_neg negative]
    by_cases outside : items.length ≤ n.toInt.toNat
    · rw [if_pos (.inr outside), List.getElem?_eq_none outside]
    · have inside : n.toInt.toNat < items.length := by omega
      rw [if_neg (not_or.mpr ⟨negative, outside⟩), read_of_lt inside, List.getElem?_eq_getElem inside]
      rfl
  | _ => rfl

theorem implements_difference :
    Implements difference
      { name := ascii "-", arity := 1, variadic := true, run := Syscall.difference } := by
  intro args admitted _
  have some : (1 : Int) ≤ args.length := by simpa [Syscall.admits] using admitted
  refine withInts_eq (fun ns same => ?_) (ascii "-")
  rcases ns with _ | ⟨n, _ | ⟨next, others⟩⟩
  · rw [← same] at some
    cases some
  · rfl
  · have more : ¬ (n :: next :: others).length = 1 := by simp
    rw [if_neg more, slice_of_le (by simp)]
    rfl

theorem implements_compare (name : Bytes) (holds : Int64 → Int64 → Bool) :
    Implements (compare name holds)
      { name := name, arity := 2, run := Syscall.compare name holds } := by
  intro args admitted _
  refine withInts_eq (fun ns same => ?_) name
  obtain ⟨a, b, rfl⟩ := List.length_eq_two.mp (same.trans (length_of_admits rfl rfl admitted))
  rfl

theorem implements_parity (name : Bytes) (rem : Int64) :
    Implements (parity name rem)
      { name := name, arity := 1, run := Syscall.parity name rem } := by
  intro args admitted _
  refine withInts_eq (fun ns same => ?_) name
  obtain ⟨n, rfl⟩ := List.length_eq_one_iff.mp (same.trans (length_of_admits rfl rfl admitted))
  rfl

theorem implements_equality :
    Implements equality { name := ascii "=", arity := 2, run := Syscall.equal } := by
  intro args admitted built
  obtain ⟨v, w, rfl⟩ := List.length_eq_two.mp (length_of_admits rfl rfl admitted)
  show (do
    let same ← equal v w
    Except.ok (Reply.value (.bool same))) = _
  rw [equal_of_built (built v (by simp)) (built w (by simp))]
  rfl

theorem bindPairs_eq (entries : Dict Bytes Value) : ∀ {rest : List Value} {i : Nat},
    args.drop i = rest → rest.length % 2 = 0 →
    bindPairs args entries i = .ok (Syscall.bindPairs entries rest)
  | [], i, split, _ => by
    have outside : ¬ i < args.length := by
      have ended := List.drop_eq_nil_iff.mp split
      omega
    rw [bindPairs, if_neg outside]
    rfl
  | [_], _, _, even => by cases even
  | k :: v :: rest, i, split, even => by
    have second := drop_succ split
    have later : rest.length % 2 = 0 := by
      simp only [List.length_cons] at even
      omega
    rw [bindPairs, if_pos (lt_of_drop split), read_of_drop split]
    cases k with
    | sym s =>
      show (do
        let v ← read args (i + 1)
        bindPairs args (Dict.insert entries s v) (i + 2)) = _
      rw [read_of_drop second]
      exact bindPairs_eq (Dict.insert entries s v) (drop_succ second) later
    | _ => rfl

theorem implements_makeMap :
    Implements makeMap
      { name := ascii "map", arity := 0, variadic := true, run := Syscall.makeMap } := by
  intro args _ _
  show makeMap args = .ok (Syscall.makeMap args)
  unfold makeMap Syscall.makeMap
  by_cases odd : args.length % 2 ≠ 0
  · rw [if_pos odd, if_pos odd]
  · rw [if_neg odd, if_neg odd]
    exact bindPairs_eq [] rfl (by simpa using odd)

end Bodies

/-- Every call of the standard table has a body. -/
theorem exists_body (sink : Sink) :
    ∀ sc ∈ Syscall.listCalls ++ Syscall.integerCalls ++ Syscall.dataCalls sink,
      ∃ f, (bodies sink).lookup sc.name = some f ∧ Implements f sc := by
  simp only [Syscall.listCalls, Syscall.integerCalls, Syscall.dataCalls, List.forall_mem_append,
    List.forall_mem_cons]
  refine ⟨⟨⟨⟨_, rfl, implements_unary rfl rfl⟩, ⟨_, rfl, implements_unary rfl rfl⟩,
    ⟨_, rfl, implements_binary rfl rfl⟩, ⟨_, rfl, implements_head _⟩, ⟨_, rfl, implements_head _⟩,
    ⟨_, rfl, implements_tail _⟩, ⟨_, rfl, implements_tail _⟩, ⟨_, rfl, implements_unary rfl rfl⟩,
    ⟨_, rfl, implements_nth⟩, ⟨_, rfl, implements_variadic _⟩, nofun⟩,
    ⟨_, rfl, implements_variadic _⟩, ⟨_, rfl, implements_variadic _⟩,
    ⟨_, rfl, implements_difference⟩, ⟨_, rfl, implements_compare _ _⟩,
    ⟨_, rfl, implements_compare _ _⟩, ⟨_, rfl, implements_equality⟩,
    ⟨_, rfl, implements_parity _ _⟩, ⟨_, rfl, implements_parity _ _⟩, nofun⟩,
    ⟨_, rfl, implements_unary rfl rfl⟩, ⟨_, rfl, implements_unary rfl rfl⟩,
    ⟨_, rfl, implements_unary rfl rfl⟩, ⟨_, rfl, implements_unary rfl rfl⟩,
    ⟨_, rfl, implements_unary rfl rfl⟩, ⟨_, rfl, implements_unary rfl rfl⟩,
    ⟨_, rfl, implements_unary rfl rfl⟩, ⟨_, rfl, implements_variadic _⟩,
    ⟨_, rfl, implements_variadic _⟩, ⟨_, rfl, implements_unary rfl rfl⟩,
    ⟨_, rfl, implements_unary rfl rfl⟩, ⟨_, rfl, implements_makeMap⟩,
    ⟨_, rfl, implements_binary rfl rfl⟩, ⟨_, rfl, implements_ternary rfl rfl⟩,
    ⟨_, rfl, implements_unary rfl rfl⟩, nofun⟩

/-- A call that the standard table lets through, on built arguments, runs into no fault. -/
theorem body_of_lookup {sink : Sink} {sc : Syscall}
    (found : (SyscallTable.standard sink).lookup name args.length = .ok sc)
    (built : ∀ v ∈ args, v.Built) : body sink name args = .ok (sc.run args) := by
  obtain ⟨member, admitted⟩ := SyscallTable.mem_of_lookup found
  rcases SyscallTable.mem_addAll member with old | ⟨call, listed, same⟩
  · cases old
  obtain ⟨rfl, rfl⟩ := Prod.mk.inj same
  obtain ⟨f, present, implements⟩ := exists_body sink call listed
  rw [body, present]
  exact implements args admitted built

end ProcLisp.Indexed
