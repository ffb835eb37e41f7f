import ProcLisp.Value.Basic

/-!
# The byte scanner

Source text is read in one pass, a byte at a time. The state holds the token being read, the lists
and quote marks still open, and the values already complete. Places are counted from the end of
the text (`left` bytes are still to come), so that what is read of a suffix does not depend on what
stands before it.
-/

namespace ProcLisp.Reader

/-- White space is decided by byte: the ASCII blanks, and the two Latin-1 ones. -/
def isBlank (c : UInt8) : Bool := (0x09 ≤ c && c ≤ 0x0d) || c == 0x20 || c == 0x85 || c == 0xa0

def openParen : UInt8 := 0x28
def closeParen : UInt8 := 0x29
def quoteMark : UInt8 := 0x27
def semicolon : UInt8 := 0x3b
def newline : UInt8 := 0x0a

/-- The bytes that end an atom. -/
def isDelimiter (c : UInt8) : Bool :=
  c == openParen || c == closeParen || c == Quoted.quoteMark || c == semicolon || c == quoteMark ||
    isBlank c

/-- Why a text cannot be read. -/
inductive Fault where
  | unclosedList
  /-- A string without its closing quote; `dangling` if the text ends in its backslash. -/
  | unclosedString (dangling : Bool)
  | strayClose
  | endOfInput
  | notOne (found : Nat)
  deriving DecidableEq, Repr

/-- A fault and the number of bytes left at its place. -/
structure Stuck where
  fault : Fault
  left : Nat
  deriving DecidableEq, Repr

/-- Something open, with its items so far, newest first. -/
inductive Opened where
  | list (left : Nat) (items : List Value)
  | quote

/-- The token being read, with its bytes so far, newest first. -/
inductive Mode where
  | between
  | comment
  | atom (read : Bytes)
  | text (left : Nat) (read : Bytes)
  | escape (left : Nat) (read : Bytes)

structure State where
  left : Nat
  mode : Mode := .between
  opened : List Opened := []
  done : List Value := []

def State.start (src : Bytes) : State := { left := src.length }

/-- A decimal number that fits 64 bits. -/
def int? (s : Bytes) : Option Int64 :=
  match Bytes.toInt? s with
  | some n =>
    if Int64.minValue.toInt ≤ n ∧ n ≤ Int64.maxValue.toInt then some (Int64.ofInt n) else none
  | none => none

/-- A boolean, a number, or else a symbol. -/
def atomValue (s : Bytes) : Value :=
  if s = ascii "#t" ∨ s = ascii "true" then .bool true
  else if s = ascii "#f" ∨ s = ascii "false" then .bool false
  else match int? s with
    | some n => .int n
    | none => .sym s

/-- The byte that a backslash and `c` stand for. -/
def unescape (c : UInt8) : UInt8 :=
  if c = 0x6e then 0x0a else if c = 0x74 then 0x09 else if c = 0x72 then 0x0d else c

def quoted (v : Value) : Value := .list [.sym (ascii "quote"), v]

/-- Hands a complete value to what is open around it. -/
def settle (v : Value) : List Opened → List Value → List Opened × List Value
  | [], done => ([], v :: done)
  | .quote :: rest, done => settle (quoted v) rest done
  | .list left items :: rest, done => (.list left (v :: items) :: rest, done)

namespace State

def give (st : State) (v : Value) : State :=
  let next := settle v st.opened st.done
  { st with mode := .between, opened := next.1, done := next.2 }

/-- Completes an atom that is being read. -/
def flush (st : State) : State :=
  match st.mode with
  | .atom read => st.give (atomValue read.reverse)
  | _ => st

/-- Completes an atom that ends before `c`. -/
def settleAt (st : State) (c : UInt8) : State := if isDelimiter c then st.flush else st

/-- A byte between tokens. -/
def between (st : State) (c : UInt8) : Except Stuck State :=
  if isBlank c then .ok st
  else if c = semicolon then .ok { st with mode := .comment }
  else if c = openParen then .ok { st with opened := .list st.left [] :: st.opened }
  else if c = closeParen then
    match st.opened with
    | .list _ items :: rest => .ok ({ st with opened := rest }.give (.list items.reverse))
    | _ => .error ⟨.strayClose, st.left⟩
  else if c = quoteMark then .ok { st with opened := .quote :: st.opened }
  else if c = Quoted.quoteMark then .ok { st with mode := .text st.left [] }
  else .ok { st with mode := .atom [c] }

/-- A byte that does not end an atom. -/
def take (st : State) (c : UInt8) : Except Stuck State :=
  match st.mode with
  | .between => st.between c
  | .comment => .ok (if c = newline then { st with mode := .between } else st)
  | .atom read => .ok { st with mode := .atom (c :: read) }
  | .text left read =>
    if c = Quoted.backslash then .ok { st with mode := .escape left read }
    else if c = Quoted.quoteMark then .ok (st.give (.str read.reverse))
    else .ok { st with mode := .text left (c :: read) }
  | .escape left read => .ok { st with mode := .text left (unescape c :: read) }

def advance (st : State) (c : UInt8) : Except Stuck State :=
  (st.take c).map fun next => { next with left := st.left - 1 }

/-- Reads one byte. -/
def step (st : State) (c : UInt8) : Except Stuck State := (st.settleAt c).advance c

def run (st : State) : Bytes → Except Stuck State
  | [] => .ok st
  | c :: rest => match st.step c with
    | .ok next => next.run rest
    | .error e => .error e

/-- The values read, newest first, if the text may end here. -/
def finish (st : State) : Except Stuck (List Value) :=
  let st := st.flush
  match st.mode with
  | .text left _ => .error ⟨.unclosedString false, left⟩
  | .escape left _ => .error ⟨.unclosedString true, left⟩
  | _ => match st.opened with
    | .list left _ :: _ => .error ⟨.unclosedList, left⟩
    | .quote :: _ => .error ⟨.endOfInput, 0⟩
    | [] => .ok st.done

/-- Reads up to the end of the first value, and what follows it. -/
def first (st : State) : Bytes → Except Stuck (Value × Bytes)
  | [] => match st.finish with
    | .ok (v :: _) => .ok (v, [])
    | .ok [] => .error ⟨.endOfInput, 0⟩
    | .error e => .error e
  | c :: rest =>
    let st := st.settleAt c
    match st.done with
    | v :: _ => .ok (v, c :: rest)
    | [] => match st.advance c with
      | .error e => .error e
      | .ok next => match next.done with
        | v :: _ => .ok (v, rest)
        | [] => next.first rest

end State
end ProcLisp.Reader
