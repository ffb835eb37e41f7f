import ProcLisp.Syscall.Basic

/-!
# Integer syscalls

Arithmetic is modulo 2^64, in two's complement. A call with an argument that is no int fails on the
first such argument. `=` is structural and takes any two values.
-/

namespace ProcLisp.Syscall

/-- The numbers of an argument list, or its first argument that is no int. -/
def ints : List Value → Except Value (List Int64)
  | [] => .ok []
  | .int n :: rest => (ints rest).map (n :: ·)
  | v :: _ => .error v

def withInts (name : Bytes) (args : List Value) (f : List Int64 → Reply) : Reply :=
  match ints args with
  | .ok ns => f ns
  | .error v => .expected name Kind.int v

def sum (args : List Value) : Reply :=
  withInts (ascii "+") args fun ns => .value (.int (ns.foldl (· + ·) 0))

def product (args : List Value) : Reply :=
  withInts (ascii "*") args fun ns => .value (.int (ns.foldl (· * ·) 1))

/-- Negates a single number, and subtracts the others from the first. -/
def difference (args : List Value) : Reply :=
  withInts (ascii "-") args fun
    | [] => .unadmitted
    | [n] => .value (.int (-n))
    | n :: rest => .value (.int (rest.foldl (· - ·) n))

def compare (name : Bytes) (holds : Int64 → Int64 → Bool) (args : List Value) : Reply :=
  withInts name args fun
    | [a, b] => .value (.bool (holds a b))
    | _ => .unadmitted

def equal : List Value → Reply
  | [a, b] => .value (.bool (a.equal b))
  | _ => .unadmitted

/-- What a division by two leaves over, without its sign. -/
def remainder (n : Int64) : Int64 :=
  let r := n % 2
  if r < 0 then -r else r

def parity (name : Bytes) (rem : Int64) (args : List Value) : Reply :=
  withInts name args fun
    | [n] => .value (.bool (remainder n == rem))
    | _ => .unadmitted

def integerCalls : List Syscall :=
  [{ name := ascii "+", arity := 0, variadic := true, run := sum },
   { name := ascii "*", arity := 0, variadic := true, run := product },
   { name := ascii "-", arity := 1, variadic := true, run := difference },
   { name := ascii "<", arity := 2, run := compare (ascii "<") (· < ·) },
   { name := ascii ">", arity := 2, run := compare (ascii ">") (· > ·) },
   { name := ascii "=", arity := 2, run := equal },
   { name := ascii "even?", arity := 1, run := parity (ascii "even?") 0 },
   { name := ascii "odd?", arity := 1, run := parity (ascii "odd?") 1 }]

end ProcLisp.Syscall
