import ProcLisp.Syscall.Integers

/-!
# The standard syscalls

Lists, predicates, logic, output and maps. The standard table has them beside the integer syscalls.
-/

namespace ProcLisp

namespace Syscall

/-! ### Lists -/

/-- Applies `f` to a list argument. -/
def withList (name : Bytes) (v : Value) (f : List Value → Reply) : Reply :=
  match v with
  | .list items => f items
  | v => .expected name Kind.list v

/-- Items of a list, bytes of a string or entries of a map. -/
def length : List Value → Reply
  | [.list items] => .value (Failure.count items.length)
  | [.str text] => .value (Failure.count text.length)
  | [.map entries] => .value (Failure.count entries.length)
  | [.bare k] =>
    if k = Kind.list ∨ k = Kind.string ∨ k = Kind.map then .value (Failure.count 0)
    else .expected (ascii "len") Kind.list (.bare k)
  | [v] => .expected (ascii "len") Kind.list v
  | _ => .unadmitted

def cons : List Value → Reply
  | [v, tail] => withList (ascii "cons") tail fun items => .value (.list (v :: items))
  | _ => .unadmitted

def head (name : Bytes) : List Value → Reply
  | [v] => withList name v fun
    | [] => .plain (name ++ ascii ": empty list")
    | x :: _ => .value x
  | _ => .unadmitted

/-- The tail of the empty list is the empty list. -/
def tail (name : Bytes) : List Value → Reply
  | [v] => withList name v fun items => .value (.list items.tail)
  | _ => .unadmitted

def isEmpty : List Value → Reply
  | [v] => withList (ascii "empty?") v fun items => .value (.bool items.isEmpty)
  | _ => .unadmitted

def nth : List Value → Reply
  | [v, index] => withList (ascii "nth") v fun items =>
    match index with
    | .int n =>
      match if n < 0 then none else items[n.toInt.toNat]? with
      | some x => .value x
      | none => .plain (ascii "nth: index " ++ Bytes.ofInt n.toInt ++ ascii " out of range [0," ++
          Bytes.ofNat items.length ++ ascii ")")
    | index => .expected (ascii "nth") Kind.int index
  | _ => .unadmitted

/-- The concatenation of lists; the first argument that is none is refused. -/
def append (args : List Value) : Reply := go [] args
where
  go (items : List Value) : List Value → Reply
    | [] => .value (.list items)
    | v :: rest => withList (ascii "append") v fun more => go (items ++ more) rest

def listCalls : List Syscall :=
  [{ name := ascii "len", arity := 1, run := length },
   { name := ascii "size", arity := 1, run := length },
   { name := ascii "cons", arity := 2, run := cons },
   { name := ascii "car", arity := 1, run := head (ascii "car") },
   { name := ascii "first", arity := 1, run := head (ascii "first") },
   { name := ascii "cdr", arity := 1, run := tail (ascii "cdr") },
   { name := ascii "rest", arity := 1, run := tail (ascii "rest") },
   { name := ascii "empty?", arity := 1, run := isEmpty },
   { name := ascii "nth", arity := 2, run := nth },
   { name := ascii "append", arity := 0, variadic := true, run := append }]

/-! ### Predicates, logic and output -/

def isKind (kind : Bytes) : List Value → Reply
  | [v] => .value (.bool (v.kind == kind))
  | _ => .unadmitted

/-- Where printed lines go; a closed sink refuses them. -/
inductive Sink where
  | opened | closed
  deriving DecidableEq, Repr

/-- Prints a value on a line of its own and answers it. -/
def print (sink : Sink) : List Value → Reply
  | [v] => match sink with
    | .opened => { printed := v.display ++ [0x0a], result := .ok v }
    | .closed => .plain (ascii "print: sink closed")
  | _ => .unadmitted

/-- The first argument that counts as true, or false. -/
def disjunction (args : List Value) : Reply :=
  .value ((args.find? Value.truthy).getD (.bool false))

/-- The last argument if all count as true, or false. -/
def conjunction (args : List Value) : Reply :=
  .value (if args.all Value.truthy then args.getLast?.getD (.bool true) else .bool false)

def negation : List Value → Reply
  | [v] => .value (.bool (!v.truthy))
  | _ => .unadmitted

def raise : List Value → Reply
  | [v] => .fail (.user v)
  | _ => .unadmitted

/-! ### Maps -/

def withSymbol (name : Bytes) (v : Value) (f : Bytes → Reply) : Reply :=
  match v with
  | .sym s => f s
  | v => .expected name Kind.symbol v

def withMap (name : Bytes) (v : Value) (f : Dict Bytes Value → Reply) : Reply :=
  match v with
  | .map entries => f entries
  | v => .expected name Kind.map v

/-- Binds alternating keys and values, from left to right. -/
def bindPairs (entries : Dict Bytes Value) : List Value → Reply
  | k :: v :: rest => withSymbol (ascii "map") k fun s => bindPairs (Dict.insert entries s v) rest
  | _ => .value (.map entries)

def makeMap (args : List Value) : Reply :=
  if args.length % 2 ≠ 0 then
    .plain (ascii "map: odd number of arguments (" ++ Bytes.ofNat args.length ++ ascii ")")
  else bindPairs [] args

/-- A missing key has the empty list. -/
def mapGet : List Value → Reply
  | [m, k] => withMap (ascii "get") m fun entries => withSymbol (ascii "get") k fun s =>
    .value ((Dict.find? entries s).getD .empty)
  | _ => .unadmitted

def mapAssoc : List Value → Reply
  | [m, k, v] => withMap (ascii "assoc") m fun entries => withSymbol (ascii "assoc") k fun s =>
    .value (.map (Dict.insert entries s v))
  | _ => .unadmitted

def mapKeys : List Value → Reply
  | [m] => withMap (ascii "keys") m fun entries => .value (.list ((Dict.keys entries).map .sym))
  | _ => .unadmitted

def dataCalls (sink : Sink) : List Syscall :=
  [{ name := ascii "list?", arity := 1, run := isKind Kind.list },
   { name := ascii "symbol?", arity := 1, run := isKind Kind.symbol },
   { name := ascii "int?", arity := 1, run := isKind Kind.int },
   { name := ascii "string?", arity := 1, run := isKind Kind.string },
   { name := ascii "pid?", arity := 1, run := isKind Kind.pid },
   { name := ascii "bool?", arity := 1, run := isKind Kind.bool },
   { name := ascii "print", arity := 1, run := print sink },
   { name := ascii "or", arity := 0, variadic := true, run := disjunction },
   { name := ascii "and", arity := 0, variadic := true, run := conjunction },
   { name := ascii "not", arity := 1, run := negation },
   { name := ascii "error", arity := 1, run := raise },
   { name := ascii "map", arity := 0, variadic := true, run := makeMap },
   { name := ascii "get", arity := 2, run := mapGet },
   { name := ascii "assoc", arity := 3, run := mapAssoc },
   { name := ascii "keys", arity := 1, run := mapKeys }]

end Syscall

/-! ### The table -/

/-- The list, integer and data syscalls; `print` writes to `sink`. -/
def SyscallTable.standard (sink : Syscall.Sink) : SyscallTable :=
  addAll [] (Syscall.listCalls ++ Syscall.integerCalls ++ Syscall.dataCalls sink)

end ProcLisp
