import ProcLisp.Text.Quoted

/-!
# Process identifiers

A pid is a 128-bit number, written as 32 hexadecimal digits in groups of 8, 4, 4, 4 and 12.
Reading also accepts the digits without dashes, a `urn:uuid:` lead in any case, and one arbitrary
byte on either side.
-/

namespace ProcLisp

structure Pid where
  val : Nat
  deriving DecidableEq, Repr

namespace Pid

instance : LT Pid := ⟨fun p q => p.val < q.val⟩

instance : DecidableLT Pid := fun p q => inferInstanceAs (Decidable (p.val < q.val))

instance : Ord Pid := ⟨fun p q => compare p.val q.val⟩

instance : Std.TransOrd Pid where
  eq_swap {p q} := @Std.OrientedCmp.eq_swap Nat compare _ p.val q.val
  isLE_trans {p q r} := @Std.TransCmp.isLE_trans Nat compare _ p.val q.val r.val

instance : Std.LawfulEqOrd Pid where
  compare_self {p} := @Std.ReflCmp.compare_self Nat compare _ p.val
  eq_of_compare {p q} h := by
    cases p
    cases q
    exact congrArg mk (Nat.compare_eq_eq.mp h)

/-- The pid of no process. -/
def nil : Pid := ⟨0⟩

/-- Where a scheduler takes new pids from: the `n`-th one, never the same again. -/
structure Source where
  pid : Nat → Pid
  distinct : ∀ {m n}, pid m = pid n → m = n
  real : ∀ n, pid n ≠ nil

/-- The `n`-th pid of the source that counts. -/
def issued (n : Nat) : Pid := ⟨0x00000000000040008000000000000000 + n⟩

def Source.counting : Source where
  pid := issued
  distinct same := by
    simp only [issued, Pid.mk.injEq] at same
    omega
  real n same := by
    simp only [issued, nil, Pid.mk.injEq] at same
    omega

/-- Digit groups with dashes between them. -/
def dashed (digits : Bytes) : Bytes :=
  digits.take 8 ++ 0x2d :: (digits.drop 8).take 4 ++ 0x2d :: (digits.drop 12).take 4 ++
    0x2d :: (digits.drop 16).take 4 ++ 0x2d :: digits.drop 20

def toBytes (p : Pid) : Bytes := dashed (Bytes.hex 32 p.val)

/-- Why a text is no pid. -/
inductive Fault where
  | length (n : Nat)
  | urn (lead : Bytes)
  | format
  deriving DecidableEq, Repr

def Fault.message : Fault → Bytes
  | .length n => ascii "invalid UUID length: " ++ Bytes.ofNat n
  | .urn lead => ascii "invalid urn prefix: " ++ Quoted.quote lead
  | .format => ascii "invalid UUID format"

/-- The number that a run of hexadecimal digits denotes. -/
def ofDigits? (digits : Bytes) : Option Pid :=
  (digits.foldlM (fun n c => (Bytes.hexValue? c).map (16 * n + ·)) 0).map Pid.mk

/-- The digits of the 36-byte form, if its dashes are in place. -/
def undashed? (s : Bytes) : Option Bytes :=
  if s[8]? = some 0x2d ∧ s[13]? = some 0x2d ∧ s[18]? = some 0x2d ∧ s[23]? = some 0x2d then
    some (s.take 8 ++ (s.drop 9).take 4 ++ (s.drop 14).take 4 ++ (s.drop 19).take 4 ++
      (s.drop 24).take 12)
  else none

def urnLead : Bytes := ascii "urn:uuid:"

def readDashed (s : Bytes) : Except Fault Pid :=
  match undashed? s with
  | none => .error .format
  | some digits => match ofDigits? digits with
    | none => .error .format
    | some p => .ok p

def parse (s : Bytes) : Except Fault Pid :=
  match s.length with
  | 32 => match ofDigits? s with
    | none => .error .format
    | some p => .ok p
  | 36 => readDashed s
  | 38 => readDashed (s.drop 1)
  | 45 =>
    if (s.take 9).map Bytes.lower = urnLead then readDashed (s.drop 9)
    else .error (.urn (s.take 9))
  | n => .error (.length n)

end Pid
end ProcLisp
