import ProcLisp.Reader.Parse
import ProcLisp.Value.Printer

/-!
# Exit records and their archived form

A record is archived under its pid, as the exit time in nanoseconds (eight bytes, most significant
first) followed by the printed reason. Reading it back parses the reason; a text that is not one
expression comes back as a string.
-/

namespace ProcLisp.Journal

structure Record where
  pid : Pid
  reason : Value
  /-- Nanoseconds since the epoch. -/
  exitedAt : Int64

/-- What an archive can be wrong about. -/
structure Corruption where
  key : Bytes
  reason : Bytes
  deriving DecidableEq, Repr

def Corruption.message (c : Corruption) : Bytes :=
  ascii "data corruption for key " ++ c.key ++ ascii ": " ++ c.reason

def keyLead : Bytes := ascii "exit:"

def key (p : Pid) : Bytes := keyLead ++ p.toBytes

/-- Eight bytes, most significant first. -/
def bigEndian (n : UInt64) : Bytes :=
  (List.range 8).map fun i => (n.toNat / Nat.pow 256 (7 - i)).toUInt8

def ofBigEndian (s : Bytes) : UInt64 := (s.foldl (fun (n : Nat) c => 256 * n + c.toNat) 0).toUInt64

namespace Record

def encode (r : Record) : Bytes := bigEndian r.exitedAt.toUInt64 ++ r.reason.encode

/-- The reason that an archived text stands for. -/
def decodeReason (text : Bytes) : Value :=
  match Reader.parseOne text with
  | .ok v => v
  | .error _ => .str text

def decode (p : Pid) (s : Bytes) : Except Corruption Record :=
  if s.length < 8 then .error ⟨key p, ascii "record shorter than its timestamp"⟩
  else .ok ⟨p, decodeReason (s.drop 8), (ofBigEndian (s.take 8)).toInt64⟩

end Record
end ProcLisp.Journal
