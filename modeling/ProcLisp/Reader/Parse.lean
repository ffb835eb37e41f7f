import ProcLisp.Reader.Scan

/-!
# Reading programs

`parse` reads every expression of a text, `parseOne` exactly one, and `next` the one that follows
a position.
-/

namespace ProcLisp.Reader

structure ParseError where
  position : Nat
  fault : Fault
  deriving DecidableEq, Repr

namespace Fault

def message : Fault → Bytes
  | unclosedList => ascii "unclosed list"
  | unclosedString _ => ascii "unclosed quoted string"
  | strayClose => ascii "unexpected ')'"
  | endOfInput => ascii "unexpected end of input"
  | notOne n => ascii "expected one expression, found " ++ Bytes.ofNat n

end Fault

namespace ParseError

def text (position : Int) (message : Bytes) : Bytes :=
  ascii "parse error at " ++ Bytes.ofInt position ++ ascii ": " ++ message

def message (e : ParseError) : Bytes := text e.position e.fault.message

/-- Whether more input could complete the source. -/
def incomplete (e : ParseError) : Bool :=
  match e.fault with
  | .unclosedList => true
  | .unclosedString _ => true
  | _ => false

/-- Where reading stopped in a text that ends at `final`. -/
def stop (e : ParseError) (final : Nat) : Nat :=
  match e.fault with
  | .strayClose => e.position
  | .unclosedString true => final + 1
  | _ => final

end ParseError

/-- A fault in the part of a text of `length` bytes that starts at `start`. -/
def Stuck.place (s : Stuck) (start length : Nat) : ParseError :=
  ⟨start + (length - s.left), s.fault⟩

/-- Every expression of `src`. -/
def parse (src : Bytes) : Except ParseError (List Value) :=
  match (State.start src).run src with
  | .error e => .error (e.place 0 src.length)
  | .ok st => match st.finish with
    | .error e => .error (e.place 0 src.length)
    | .ok done => .ok done.reverse

/-- The only expression of `src`. -/
def parseOne (src : Bytes) : Except ParseError Value :=
  match parse src with
  | .error e => .error e
  | .ok [v] => .ok v
  | .ok vs => .error ⟨0, .notOne vs.length⟩

/-- The expression at or after `position`, and the position after it. -/
def next (src : Bytes) (position : Nat) : Except ParseError (Value × Nat) :=
  let rest := src.drop position
  match (State.start rest).first rest with
  | .error e => .error (e.place position rest.length)
  | .ok (v, after) => .ok (v, position + (rest.length - after.length))

end ProcLisp.Reader
