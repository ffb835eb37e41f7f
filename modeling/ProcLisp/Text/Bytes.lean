/-!
# Byte strings

Source text, symbols and string values are byte strings: the reader decides byte by byte, and a
symbol need not be valid UTF-8. Order is lexicographic by byte.
-/

namespace ProcLisp

/-- Text as a sequence of bytes. -/
abbrev Bytes := List UInt8

/-- Texts are compared byte by byte up to the first difference. -/
def Bytes.decEq : (s t : Bytes) → Decidable (s = t)
  | [], [] => .isTrue rfl
  | [], _ :: _ => .isFalse nofun
  | _ :: _, [] => .isFalse nofun
  | x :: s, y :: t =>
    if h : x = y then
      match decEq s t with
      | .isTrue e => .isTrue (by rw [h, e])
      | .isFalse n => .isFalse fun e => n (List.cons.inj e).2
    else .isFalse fun e => h (List.cons.inj e).1

instance : DecidableEq Bytes := Bytes.decEq

/-- The bytes of an ASCII text. -/
def ascii (s : String) : Bytes := s.toList.map fun c => c.toNat.toUInt8

namespace Bytes

/-- Decimal digits, without leading zeros. -/
def ofNat (n : Nat) : Bytes := (Nat.toDigits 10 n).map fun c => c.toNat.toUInt8

/-- Decimal digits with a minus sign for a negative number. -/
def ofInt : Int → Bytes
  | .ofNat n => ofNat n
  | .negSucc n => 0x2d :: ofNat (n + 1)

def isDigit (c : UInt8) : Bool := 0x30 ≤ c && c ≤ 0x39

/-- The value of a run of decimal digits; a byte that is no digit ends it with nothing. -/
def toNat? (s : Bytes) : Option Nat :=
  if s.isEmpty || !s.all isDigit then none
  else some (s.foldl (fun n c => 10 * n + (c.toNat - 0x30)) 0)

/-- Decimal digits after an optional sign. -/
def toInt? : Bytes → Option Int
  | 0x2b :: s => (toNat? s).map Int.ofNat
  | 0x2d :: s => (toNat? s).map fun n => -(n : Int)
  | s => (toNat? s).map Int.ofNat

def hexDigit (n : Nat) : UInt8 := if n < 10 then (0x30 + n).toUInt8 else (0x57 + n).toUInt8

/-- The `width` low hexadecimal digits of `n`, in lower case. -/
def hex (width n : Nat) : Bytes :=
  (List.range width).map fun i => hexDigit (n / Nat.pow 16 (width - 1 - i) % 16)

/-- The value of a hexadecimal digit in either case. -/
def hexValue? (c : UInt8) : Option Nat :=
  if isDigit c then some (c.toNat - 0x30)
  else if 0x61 ≤ c && c ≤ 0x66 then some (c.toNat - 0x57)
  else if 0x41 ≤ c && c ≤ 0x46 then some (c.toNat - 0x37)
  else none

/-- ASCII letters in lower case; every other byte as it is. -/
def lower (c : UInt8) : UInt8 := if 0x41 ≤ c && c ≤ 0x5a then c + 0x20 else c

/-- `parts` with `gap` between neighbours. -/
def join (gap : Bytes) : List Bytes → Bytes
  | [] => []
  | [s] => s
  | s :: rest => s ++ gap ++ join gap rest

/-- The parts between the marks; one more than there are marks. -/
def splitOn (mark : UInt8) : Bytes → List Bytes
  | [] => [[]]
  | c :: s =>
    match splitOn mark s with
    | [] => [[c]]
    | part :: parts => if c = mark then [] :: part :: parts else (c :: part) :: parts

/-- The name at place `n`; a place without one is written out as `kind(n)`. -/
def nameAt (names : List Bytes) (kind : Bytes) (n : Int) : Bytes :=
  (if n < 0 then none else names[n.toNat]?).getD (kind ++ ascii "(" ++ ofInt n ++ ascii ")")

end Bytes
end ProcLisp
