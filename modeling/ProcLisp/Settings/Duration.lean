import ProcLisp.Text.Bytes

/-!
# Durations

A duration is a number of nanoseconds in 64 bits. Its text is a sequence of decimal numbers with
units, such as `1h30m` or `1.5s`, after an optional sign.
-/

namespace ProcLisp.Duration

/-- The length of a unit in nanoseconds; micro may be either of two letters. -/
def unit? (u : Bytes) : Option Nat :=
  if u = ascii "ns" then some 1
  else if u = ascii "us" || u = [0xc2, 0xb5, 0x73] || u = [0xce, 0xbc, 0x73] then some 1000
  else if u = ascii "ms" then some 1000000
  else if u = ascii "s" then some 1000000000
  else if u = ascii "m" then some 60000000000
  else if u = ascii "h" then some 3600000000000
  else none

/-- Half the range of a word of 64 bits. -/
def most : Nat := 9223372036854775808

/-- The value of a run of digits, up to half the range. -/
def whole? (digits : Bytes) : Option Nat :=
  let n := digits.foldl (fun n c => 10 * n + (c.toNat - 0x30)) 0
  if n ≤ most then some n else none

/-- The digits behind a point as a number and its scale. Digits that no longer fit are dropped. -/
def fraction (digits : Bytes) : Nat × Nat :=
  let (n, places, _) := digits.foldl (fun (n, places, full) c =>
    let next := 10 * n + (c.toNat - 0x30)
    if full || n > (most - 1) / 10 || next > most then (n, places, true)
    else (next, places + 1, false)) (0, 0, false)
  (n, places)

/-- Nanoseconds of a fraction of a unit, computed in floating point and truncated. -/
def partOf (unit n places : Nat) : Nat :=
  let scale := (List.range places).foldl (fun (x : Float) _ => x * 10) 1
  (Float.ofNat n * (Float.ofNat unit / scale)).toUInt64.toNat

/-- The sum of the numbers with units that are left, in 64 bits. -/
def sum? : Nat → Bytes → Nat → Option Nat
  | _, [], total => some total
  | 0, _, _ => none
  | fuel + 1, s, total =>
    let (before, s) := s.span Bytes.isDigit
    let (behind, s) := match s with
      | 0x2e :: s => s.span Bytes.isDigit
      | s => ([], s)
    if before.isEmpty && behind.isEmpty then none
    else
      let (name, s) := s.span fun c => !(c == 0x2e || Bytes.isDigit c)
      (whole? before).bind fun n => (unit? name).bind fun unit =>
        if n > most / unit then none
        else
          let (m, places) := fraction behind
          let one := n * unit + (if m = 0 then 0 else partOf unit m places)
          let total := (total + one) % (2 * most)
          if one > most || total > most then none else sum? fuel s total

/-- The nanoseconds a text stands for. A zero needs no unit. -/
def parse? (s : Bytes) : Option Int :=
  let (negative, s) := match s with
    | 0x2d :: s => (true, s)
    | 0x2b :: s => (false, s)
    | s => (false, s)
  if s = ascii "0" then some 0
  else if s.isEmpty then none
  else (sum? s.length s 0).bind fun n =>
    if negative then some (-(n : Int)) else if n < most then some n else none

end ProcLisp.Duration
