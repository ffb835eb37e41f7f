import ProcLisp.Value.Printer

/-!
# Language errors

An error that a program raises or runs into has a kind and a payload. It travels as a value and
ends the evaluation that it escapes from. A host call may also fail with a plain text.
-/

namespace ProcLisp

structure Failure where
  kind : Bytes
  payload : Value
  deriving Inhabited

namespace ErrorKind

def unboundVariable : Bytes := ascii "UnboundVariable"
def syscallNotFound : Bytes := ascii "SyscallNotFound"
def arityMismatch : Bytes := ascii "ArityMismatch"
def cannotApplyNonFunction : Bytes := ascii "CannotApplyNonFunction"
def unevenBindings : Bytes := ascii "UnevenBindings"
def nonSymbolBindingName : Bytes := ascii "NonSymbolBindingName"
def unknownProcess : Bytes := ascii "UnknownProcess"
def malformedForm : Bytes := ascii "MalformedForm"
def typeMismatch : Bytes := ascii "TypeMismatch"
def syscallFailed : Bytes := ascii "SyscallFailed"
def userError : Bytes := ascii "UserError"
def stackOverflow : Bytes := ascii "StackOverflow"
def notInProcess : Bytes := ascii "NotInProcess"
def unknown : Bytes := ascii "Unknown"

/-- The kinds with a description of their own. -/
def descriptions : List (Bytes × Bytes) :=
  [(unboundVariable, ascii "symbol is not bound in the environment"),
   (syscallNotFound, ascii "no syscall registered under that name and arity"),
   (arityMismatch, ascii "wrong number of arguments"),
   (cannotApplyNonFunction, ascii "head of application is not a function"),
   (unevenBindings, ascii "binding list is not made of name/value pairs"),
   (nonSymbolBindingName, ascii "binding name must be a symbol"),
   (unknownProcess, ascii "no process was ever registered under that pid"),
   (malformedForm, ascii "special form has the wrong shape"),
   (typeMismatch, ascii "value has the wrong type"),
   (syscallFailed, ascii "syscall rejected its arguments"),
   (userError, ascii "raised by program"),
   (stackOverflow, ascii "continuation stack exceeded its bound"),
   (notInProcess, ascii "process primitive used outside of a process")]

def description (kind : Bytes) : Bytes :=
  match descriptions.find? (·.1 = kind) with
  | some (_, text) => text
  | none => ascii "unknown error kind (" ++ kind ++ ascii ")"

end ErrorKind

namespace Failure

def raise (kind : Bytes) (payload : Value) : Failure := ⟨kind, payload.payload⟩

/-- The failure as a value that programs can hold. -/
def toValue (f : Failure) : Value := .error f.kind f.payload

def message (f : Failure) : Bytes :=
  f.kind ++ ascii " (" ++ ErrorKind.description f.kind ++ ascii "): " ++ f.payload.encode

def unbound (name : Bytes) : Failure := raise ErrorKind.unboundVariable (.sym name)

/-- A count as a value of the language. -/
def count (n : Nat) : Value := .int (Int64.ofNat n)

def syscallNotFound (name : Bytes) (argc : Int) : Failure :=
  raise ErrorKind.syscallNotFound (.list [.sym name, .int (Int64.ofInt argc)])

def arityMismatch (callee : Value) (want got : Nat) : Failure :=
  raise ErrorKind.arityMismatch (.list [callee, count want, count got])

def notFunction (v : Value) : Failure := raise ErrorKind.cannotApplyNonFunction v
def unevenBindings (v : Value) : Failure := raise ErrorKind.unevenBindings v
def nonSymbolName (v : Value) : Failure := raise ErrorKind.nonSymbolBindingName v
def unknownProcess (p : Pid) : Failure := raise ErrorKind.unknownProcess (.pid p)
def malformed (form : List Value) : Failure := raise ErrorKind.malformedForm (.list form)

/-- `got` is not of the kind `want`. -/
def typeMismatch (want : Bytes) (got : Value) : Failure :=
  raise ErrorKind.typeMismatch (.list [.sym want, got])

def syscallFailed (name text : Bytes) : Failure :=
  raise ErrorKind.syscallFailed (.list [.sym name, .str text])

def user (payload : Value) : Failure := raise ErrorKind.userError payload
def stackOverflow (bound : Nat) : Failure := raise ErrorKind.stackOverflow (count bound)
def notInProcess (primitive : Bytes) : Failure := raise ErrorKind.notInProcess (.sym primitive)

/-- A failure that only has a text. -/
def unknown (text : Bytes) : Failure := raise ErrorKind.unknown (.str text)

end Failure

/-- How a call into the host fails. -/
inductive Trouble where
  | language (failure : Failure)
  | plain (text : Bytes)

/-- A plain text ends a program as a failure of unknown kind. -/
def Trouble.toFailure : Trouble → Failure
  | .language failure => failure
  | .plain text => .unknown text

end ProcLisp
