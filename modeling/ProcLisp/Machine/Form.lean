import ProcLisp.Syscall.Basic

/-!
# The forms of the language

`Form.read` tells what an expression asks for. A list whose head names a special form, a process
primitive or a syscall is that form; any other list applies its head. The shape of a form is
checked here, before any part of it is evaluated.
-/

namespace ProcLisp

/-- The process primitives, which need a process to act for. -/
inductive Primitive where
  | pid | fork | spawn | send | wait | watch | terminate
  deriving DecidableEq, Repr

namespace Primitive

def all : List Primitive := [pid, fork, spawn, send, wait, watch, terminate]

def name : Primitive → Bytes
  | pid => ascii "pid"
  | fork => ascii "fork"
  | spawn => ascii "spawn"
  | send => ascii "send"
  | wait => ascii "wait"
  | watch => ascii "watch"
  | terminate => ascii "terminate"

def arity : Primitive → Nat
  | pid | fork | wait => 0
  | spawn | watch | terminate => 1
  | send => 2

def ofName? (s : Bytes) : Option Primitive := all.find? (·.name = s)

end Primitive

inductive SpecialForm where
  | quote | branch | sequence | define | letIn | lambda | cond | list
  deriving DecidableEq, Repr

namespace SpecialForm

/-- The words that introduce special forms. A lambda has two. -/
def words : List (Bytes × SpecialForm) :=
  [(ascii "quote", quote), (ascii "if", branch), (ascii "do", sequence), (ascii "def", define),
   (ascii "let", letIn), (ascii "fn", lambda), (ascii "lambda", lambda), (ascii "cond", cond),
   (ascii "list", list)]

def ofName? (s : Bytes) : Option SpecialForm := (words.find? (·.1 = s)).map (·.2)

end SpecialForm

/-- Names that are dispatched before any look-up, so that a binding could never be read. -/
def isReserved (name : Bytes) : Bool :=
  (SpecialForm.ofName? name).isSome || (Primitive.ofName? name).isSome

inductive Form where
  | value (v : Value)
  | lookup (name : Bytes)
  | branch (test yes no : Value)
  | sequence (first : Value) (rest : List Value)
  | define (name : Bytes) (expr : Value)
  | letIn (bindings : List (Bytes × Value)) (first : Value) (rest : List Value)
  | lambda (params : List Bytes) (body : Value)
  | cond (clauses : List (Value × Value))
  | list (items : List Value)
  | primitive (p : Primitive) (args : List Value)
  | syscall (name : Bytes) (args : List Value)
  | apply (head : Value) (args : List Value)

namespace Form

/-- Bindings written as pairs: `((a 1) (b a))`. -/
def readPairs (whole : Value) : List Value → Except Failure (List (Bytes × Value))
  | [] => .ok []
  | .list [.sym name, expr] :: rest => (readPairs whole rest).map ((name, expr) :: ·)
  | .list [v, _] :: _ => .error (.nonSymbolName v)
  | _ => .error (.unevenBindings whole)

/-- Bindings written flat: `(a 1 b a)`. -/
def readFlat (whole : Value) : List Value → Except Failure (List (Bytes × Value))
  | [] => .ok []
  | [_] => .error (.unevenBindings whole)
  | .sym name :: expr :: rest => (readFlat whole rest).map ((name, expr) :: ·)
  | v :: _ :: _ => .error (.nonSymbolName v)

/-- The first item decides on the spelling. -/
def readBindings (v : Value) : Except Failure (List (Bytes × Value)) :=
  match v with
  | .list [] => .ok []
  | .list (item :: rest) =>
    if item.kind = Kind.list then readPairs v (item :: rest)
    else if (item :: rest).length % 2 ≠ 0 then .error (.unevenBindings v)
    else readFlat v (item :: rest)
  | v => .error (.unevenBindings v)

/-- Parameters are distinct symbols that are not reserved. -/
def readParams (form : List Value) (seen : List Bytes) :
    List Value → Except Failure (List Bytes)
  | [] => .ok []
  | .sym name :: rest =>
    if seen.contains name || isReserved name then .error (.malformed form)
    else (readParams form (name :: seen) rest).map (name :: ·)
  | v :: _ => .error (.nonSymbolName v)

def readClauses : List Value → Option (List (Value × Value))
  | [] => some []
  | [_] => none
  | test :: body :: rest => (readClauses rest).map ((test, body) :: ·)

/-- Several expressions as one that evaluates them in order. -/
def block : Value → List Value → Value
  | first, [] => first
  | first, rest => .list (.sym (ascii "do") :: first :: rest)

/-- The special form `sf` with what follows its word; `form` is the whole list. -/
def readSpecial (form : List Value) : SpecialForm → List Value → Except Failure Form
  | .quote, [v] => .ok (.value v)
  | .branch, [test, yes, no] => .ok (.branch test yes no)
  | .sequence, first :: rest => .ok (.sequence first rest)
  | .define, [.sym name, expr] =>
    if isReserved name then .error (.malformed form) else .ok (.define name expr)
  | .define, [v, _] => .error (.nonSymbolName v)
  | .letIn, bindings :: first :: rest =>
    match readBindings bindings with
    | .error f => .error f
    | .ok bs =>
      if bs.any fun b => isReserved b.1 then .error (.malformed form)
      else .ok (.letIn bs first rest)
  | .lambda, .list params :: first :: rest =>
    (readParams form [] params).map fun ps => .lambda ps (block first rest)
  | .cond, clauses => match readClauses clauses with
    | some cs => .ok (.cond cs)
    | none => .error (.malformed form)
  | .list, items => .ok (.list items)
  | _, _ => .error (.malformed form)

/-- A list that is not empty. -/
def readList (table : SyscallTable) (head : Value) (args : List Value) : Except Failure Form :=
  match head with
  | .sym name =>
    match SpecialForm.ofName? name with
    | some sf => readSpecial (head :: args) sf args
    | none => match Primitive.ofName? name with
      | some p =>
        if args.length = p.arity then .ok (.primitive p args)
        else .error (.arityMismatch head p.arity args.length)
      | none => .ok (if table.has name then .syscall name args else .apply head args)
  | head => .ok (.apply head args)

def read (table : SyscallTable) (expr : Value) : Except Failure Form :=
  match expr with
  | .sym name => .ok (.lookup name)
  | .list [] => .ok (.value .empty)
  | .list (head :: args) => readList table head args
  | .bare k =>
    .ok (if k = Kind.symbol then .lookup [] else if k = Kind.list then .value .empty
      else .value (.bare k))
  | v => .ok (.value v)

end Form
end ProcLisp
