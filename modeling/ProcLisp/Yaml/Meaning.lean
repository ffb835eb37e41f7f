import ProcLisp.Text.Utf8
import ProcLisp.Yaml.Node

/-!
# What YAML scalars mean

A quoted scalar is text. A plain one may also be null, a truth value, an integer in one of four
bases, or a floating-point number.
-/

namespace ProcLisp.Yaml

inductive Meaning where
  | null
  | truth (b : Bool)
  | integer (n : Int)
  | number (x : Float)
  | text (s : List Char)

/-- The value of digits in a base; `none` for a character that is no such digit. -/
def digits? (base : Nat) (s : List Char) : Option Nat :=
  s.foldl (fun n? c => n?.bind fun n =>
    if c.toNat < 0x80 then
      (Bytes.hexValue? c.toNat.toUInt8).bind fun d => if d < base then some (base * n + d) else none
    else none) (some 0)

/-- An unsigned integer whose base is told by how it starts: `0b`, `0o` or `0x`, another zero for
octal, decimal otherwise. -/
def unsigned? : List Char → Option Nat
  | [] => none
  | '0' :: m :: d :: s =>
    if m == 'b' || m == 'B' then digits? 2 (d :: s)
    else if m == 'o' || m == 'O' then digits? 8 (d :: s)
    else if m == 'x' || m == 'X' then digits? 16 (d :: s)
    else digits? 8 (m :: d :: s)
  | '0' :: s => digits? 8 s
  | s => digits? 10 s

/-- A sign, if there is one, and the rest. -/
def sign : List Char → Option Bool × List Char
  | '+' :: s => (some false, s)
  | '-' :: s => (some true, s)
  | s => (none, s)

/-- Half the range of a word of 64 bits. -/
def halfRange : Nat := 9223372036854775808

/-- Integers have 64 bits; without a sign they may use all of them. -/
def integer? (s : List Char) : Option Int :=
  let (negative?, s) := sign s
  (unsigned? s).bind fun n =>
    match negative? with
    | some true => if n ≤ halfRange then some (-(n : Int)) else none
    | some false => if n < halfRange then some n else none
    | none => if n < 2 * halfRange then some n else none

/-- Binary and octal digits may carry their sign behind the mark of the base. -/
def inwardSigned? : List Char → Option Int
  | '0' :: m :: s =>
    let base? := if m == 'b' then some 2 else if m == 'o' then some 8 else none
    base?.bind fun base =>
      let (negative?, s) := sign s
      if s.isEmpty then none
      else (digits? base s).bind fun n =>
        if negative? = some true then (if n ≤ halfRange then some (-(n : Int)) else none)
        else if n < halfRange then some n else none
  | _ => none

/-- A decimal number: digits with a point somewhere, at least one digit on one side of it, and an
exponent. Gives the digits as one number and the power of ten that scales it. -/
def decimal? (s : List Char) : Option (Nat × Int) :=
  let (whole, s) := s.span Char.isDigit
  let (part, s) := match s with
    | '.' :: s => s.span Char.isDigit
    | s => ([], s)
  if whole.isEmpty && part.isEmpty then none
  else
    let exponent? : Option Int := match s with
      | [] => some 0
      | e :: s =>
        let (negative?, s) := sign s
        if (e == 'e' || e == 'E') && !s.isEmpty then
          (digits? 10 s).map fun n => if negative? = some true then -(n : Int) else n
        else none
    exponent?.bind fun e => (digits? 10 (whole ++ part)).map fun m => (m, e - part.length)

/-- The nearest floating-point number to `m * 10 ^ e`; none beyond the largest. -/
def nearest? (m : Nat) (e : Int) : Option Float :=
  let size := (Nat.toDigits 10 m).length + e
  if m = 0 ∨ size < -400 then some 0
  else if size > 400 then none
  else
    let x := Float.ofScientific m (e < 0) e.natAbs
    if x.isInf then none else some x

def number? (s : List Char) : Option Float :=
  let (negative?, s) := sign s
  (decimal? s).bind fun (m, e) =>
    (nearest? m e).map fun x => if negative? = some true then -x else x

/-- Every underscore stands between two digits. -/
def separated (afterDigit : Bool) : List Char → Bool
  | [] => true
  | c :: s =>
    if c == '_' then afterDigit && s.head?.any Char.isDigit && separated false s
    else separated c.isDigit s

/-- A number that starts with its point. -/
def pointed? (s : List Char) : Option Float :=
  if separated false s then number? (s.filter (· != '_')) else none

/-- Names of infinity, after the sign, and of what is no number. -/
def special? (s : List Char) : Option Float :=
  let (negative?, t) := sign s
  if [".inf", ".Inf", ".INF"].contains (String.ofList t) then
    some (if negative? = some true then -(1.0 / 0.0) else 1.0 / 0.0)
  else if [".nan", ".NaN", ".NAN"].contains (String.ofList s) then some (0.0 / 0.0)
  else none

/-- The meaning of a plain scalar. In a number that starts with a sign or a digit underscores do not
count. -/
def Meaning.ofPlain (s : List Char) : Meaning :=
  let name := String.ofList s
  if ["", "~", "null", "Null", "NULL"].contains name then .null
  else if ["true", "True", "TRUE"].contains name then .truth true
  else if ["false", "False", "FALSE"].contains name then .truth false
  else match special? s with
    | some x => .number x
    | none =>
      match s.head? with
      | none => .text s
      | some c =>
        if c == '.' then ((pointed? s).map Meaning.number).getD (.text s)
        else if c.isDigit || c == '+' || c == '-' then
          let t := s.filter (· != '_')
          match integer? t with
          | some n => .integer n
          | none => match number? t with
            | some x => .number x
            | none => ((inwardSigned? t).map Meaning.integer).getD (.text s)
        else .text s

namespace Node

/-- The meaning of a scalar; a collection has none. -/
def meaning? : Node → Option Meaning
  | .scalar s quoted => some (if quoted then .text s else .ofPlain s)
  | _ => none

def isNull (n : Node) : Bool :=
  match n.meaning? with
  | some .null => true
  | _ => false

end Node
end ProcLisp.Yaml
