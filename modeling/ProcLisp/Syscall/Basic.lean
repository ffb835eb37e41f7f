import ProcLisp.Env

/-!
# The syscall table

Syscalls are host functions that programs call by name, with evaluated arguments. A syscall takes
a fixed number of arguments or, if variadic, at least so many. It is a function of its arguments
and may print.
-/

namespace ProcLisp

/-- What a syscall prints and answers. -/
structure Reply where
  printed : Bytes := []
  result : Except Trouble Value

namespace Reply

def value (v : Value) : Reply := { result := .ok v }
def fail (f : Failure) : Reply := { result := .error (.language f) }
def plain (text : Bytes) : Reply := { result := .error (.plain text) }

/-- `v` is not of the kind that `name` expects. -/
def expected (name want : Bytes) (v : Value) : Reply :=
  plain (name ++ ascii ": expected " ++ want ++ ascii ", got " ++ v.encode)

/-- The answer to a number of arguments that the table never lets through. -/
def unadmitted : Reply := plain (ascii "wrong number of arguments")

end Reply

structure Syscall where
  name : Bytes
  /-- The exact number of arguments, or the least if variadic. -/
  arity : Int
  variadic : Bool := false
  /-- Reductions charged on top of the dispatch. -/
  cost : Int64 := 1
  run : List Value → Reply

namespace Syscall

def admits (sc : Syscall) (argc : Int) : Bool :=
  if sc.variadic then sc.arity ≤ argc else sc.arity == argc

/-- What the call prints and its outcome. A plain text becomes a failure that names the syscall. -/
def call (sc : Syscall) (args : List Value) : Bytes × Except Failure Value :=
  let reply := sc.run args
  (reply.printed, match reply.result with
    | .ok v => .ok v
    | .error (.language f) => .error f
    | .error (.plain text) => .error (.syscallFailed sc.name text))

end Syscall

/-- Syscalls by name. -/
abbrev SyscallTable := Dict Bytes Syscall

namespace SyscallTable

/-- Registers a syscall in place of any other of its name. No cost is negative. -/
def add (t : SyscallTable) (sc : Syscall) : SyscallTable :=
  Dict.insert t sc.name { sc with cost := max sc.cost 0 }

def addAll (t : SyscallTable) (calls : List Syscall) : SyscallTable := calls.foldl add t

def has (t : SyscallTable) (name : Bytes) : Bool := Dict.contains t name

/-- The syscall of that name, if it admits `argc` arguments. -/
def lookup (t : SyscallTable) (name : Bytes) (argc : Int) : Except Failure Syscall :=
  match Dict.find? t name with
  | some sc => if sc.admits argc then .ok sc else .error (.syscallNotFound name argc)
  | none => .error (.syscallNotFound name argc)

def invoke (t : SyscallTable) (name : Bytes) (args : List Value) : Bytes × Except Failure Value :=
  match t.lookup name args.length with
  | .ok sc => sc.call args
  | .error f => ([], .error f)

end SyscallTable
end ProcLisp
