import ProcLisp.Settings.Basic
import ProcLisp.Settings.Duration
import ProcLisp.Yaml.Fields

/-!
# Settings from a file

A file overrides the defaults field by field. A null leaves a field alone, an unknown key is
ignored, and a value of the wrong kind makes the whole file malformed.
-/

namespace ProcLisp

open Yaml (Node Meaning)

/-- Half the range of a word of 64 bits, as a number. -/
def Yaml.halfNumber : Float := 9223372036854775808

/-- The whole part of a number; one that does not fit is the lowest integer. -/
def Yaml.truncate (x : Float) : Int :=
  if x < halfNumber then x.toInt64.toInt else -halfRange

namespace Settings

/-- An integer, or a number up to half the range without its fraction. -/
def integer? : Meaning → Option Int
  | .integer n => if n < Yaml.halfRange then some n else none
  | .number x => if x ≤ Yaml.halfNumber then some (Yaml.truncate x) else none
  | _ => none

/-- A count of 64 bits. A number is truncated and a negative one wraps; the first number beyond the
range counts as half of it. -/
def count? : Meaning → Option Nat
  | .integer n => if 0 ≤ n then some n.toNat else none
  | .number x =>
    if x < Yaml.halfNumber then some (Yaml.truncate x % (2 * Yaml.halfRange)).toNat
    else if x < 2 * Yaml.halfNumber then some x.toUInt64.toNat
    else if x == 2 * Yaml.halfNumber then some Yaml.halfRange
    else none
  | _ => none

def duration? : Meaning → Option Int
  | .text s => Duration.parse? (Text.utf8 s)
  | _ => none

/-- Sets a field from a scalar, as it reads the meaning; null leaves the settings alone. -/
def scalar? {α : Type} (read? : Meaning → Option α) (put : α → Settings) (s : Settings) (n : Node) :
    Option Settings :=
  n.meaning?.bind fun m => match m with
    | .null => some s
    | m => (read? m).map put

/-- Sets a field to the text of a scalar, whatever it means. -/
def text? (put : Bytes → Settings) (s : Settings) : Node → Option Settings
  | .scalar t quoted =>
    if (Node.scalar t quoted).isNull then some s else some (put (Text.utf8 t))
  | _ => none

/-- Sets the fields of a mapping one after the other. -/
def fields? (set? : Settings → Bytes → Node → Option Settings) (s : Settings) (n : Node) :
    Option Settings :=
  n.fields?.bind fun fs => fs.foldlM (fun s f => set? s f.1 f.2) s

def exitField? (s : Settings) (name : Bytes) (n : Node) : Option Settings :=
  if name = ascii "retention" then scalar? duration? (fun x => { s with retention := x }) s n
  else if name = ascii "journalDir" then text? (fun x => { s with journalDir := x }) s n
  else if name = ascii "capacity" then scalar? count? (fun x => { s with capacity := x }) s n
  else some s

def loggingField? (s : Settings) (name : Bytes) (n : Node) : Option Settings :=
  if name = ascii "level" then text? (fun x => { s with level := x }) s n else some s

def field? (s : Settings) (name : Bytes) (n : Node) : Option Settings :=
  if name = ascii "workers" then scalar? integer? (fun x => { s with workers := x }) s n
  else if name = ascii "reductions" then scalar? integer? (fun x => { s with reductions := x }) s n
  else if name = ascii "maxFrames" then scalar? integer? (fun x => { s with maxFrames := x }) s n
  else if name = ascii "exits" then fields? exitField? s n
  else if name = ascii "logging" then fields? loggingField? s n
  else some s

/-- Settings from the text of a file. -/
def ofText (text : Bytes) : Except Fault Settings :=
  match (Node.read? text).bind (fields? field? {}) with
  | some s => s.validate
  | none => .error .malformed

/-- What is found where a file is looked for. -/
inductive Source where
  | missing
  | unreadable
  | text (s : Bytes)

def load : Source → Except Fault Settings
  | .missing => .error .missing
  | .unreadable => .error .unreadable
  | .text s => ofText s

end Settings
end ProcLisp
