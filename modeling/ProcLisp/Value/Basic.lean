import ProcLisp.Dict
import ProcLisp.Pid

/-!
# Values

Programs and data are the same trees. A lambda carries the environment it was made in and a tag
that tells it from every other lambda; maps and environments are ordered dictionaries. A bare
value names its kind and holds nothing: it stands for host data without a representation here.
-/

namespace ProcLisp

/-- The identity of a lambda: who made it, and which of its maker's lambdas it is. -/
structure Tag where
  origin : Nat
  serial : Nat
  deriving DecidableEq, Repr

inductive Value where
  | int (n : Int64)
  | bool (b : Bool)
  | sym (name : Bytes)
  | str (text : Bytes)
  | list (items : List Value)
  | map (entries : List (Bytes × Value))
  | lambda (tag : Tag) (params : List Bytes) (body : Value) (env : List (Bytes × Value))
  | pid (p : Pid)
  | error (kind : Bytes) (payload : Value)
  | bare (kind : Bytes)

instance : Inhabited Value := ⟨.list []⟩

/-- Names bound to values. -/
abbrev Env := Dict Bytes Value

namespace Kind

def int : Bytes := ascii "int"
def bool : Bytes := ascii "bool"
def symbol : Bytes := ascii "symbol"
def string : Bytes := ascii "string"
def list : Bytes := ascii "list"
def map : Bytes := ascii "map"
def lambda : Bytes := ascii "lambda"
def pid : Bytes := ascii "pid"
def error : Bytes := ascii "error"

end Kind

namespace Value

def kind : Value → Bytes
  | int _ => Kind.int
  | bool _ => Kind.bool
  | sym _ => Kind.symbol
  | str _ => Kind.string
  | list _ => Kind.list
  | map _ => Kind.map
  | lambda .. => Kind.lambda
  | pid _ => Kind.pid
  | error .. => Kind.error
  | bare k => k

/-- What a host hands over where it has nothing to say. -/
def nothing : Value := bare []

/-- The empty list, the answer where there is nothing to answer. -/
def empty : Value := list []

/-- Only the boolean false counts as false. -/
def truthy : Value → Bool
  | bool b => b
  | bare k => k != Kind.bool
  | _ => true

def isSymbol (v : Value) (name : Bytes) : Bool :=
  match v with
  | sym s => s == name
  | _ => false

/-- The payload of an error is never nothing: the empty list takes its place. -/
def payload (v : Value) : Value :=
  match v with
  | bare [] => empty
  | v => v

mutual

/-- Structural equality. Lambdas are compared by identity, maps by walking the first one. -/
def equal : Value → Value → Bool
  | int a, int b => a == b
  | bool a, bool b => a == b
  | sym a, sym b => a == b
  | str a, str b => a == b
  | pid a, pid b => a == b
  | lambda s .., lambda t .. => s == t
  | list xs, list ys => equalItems xs ys
  | list xs, bare k => xs.isEmpty && k == Kind.list
  | bare k, list ys => ys.isEmpty && k == Kind.list
  | map xs, map ys => xs.length == ys.length && equalEntries xs ys
  | map xs, bare k => xs.isEmpty && k == Kind.map
  | bare k, map ys => ys.isEmpty && k == Kind.map
  | error k p, error l q => k == l && equal p q
  | bare k, bare l => k == l
  | _, _ => false

def equalItems : List Value → List Value → Bool
  | [], [] => true
  | x :: xs, y :: ys => equal x y && equalItems xs ys
  | _, _ => false

/-- Every entry has an equal one under the same key. -/
def equalEntries : Dict Bytes Value → Dict Bytes Value → Bool
  | [], _ => true
  | (k, x) :: xs, ys => match Dict.find? ys k with
    | some y => equal x y && equalEntries xs ys
    | none => false

end

mutual

/-- The value as a receiver gets it: lists and errors are made anew, the rest is shared. -/
def copy : Value → Value
  | list xs => list (copyItems xs)
  | error k p => error k (copy p).payload
  | bare k => if k = Kind.list then empty else bare k
  | v => v

def copyItems : List Value → List Value
  | [] => []
  | x :: xs => copy x :: copyItems xs

end

end Value
end ProcLisp
