import ProcLisp.Text.Bytes

/-!
# Control strings

A terminal reads escape sequences, control sequences, device control strings, operating system
commands and private strings without showing them. `Escape.step` follows them byte by byte.
-/

namespace ProcLisp.Shell

/-- Where a byte stands. -/
inductive Escape where
  /-- Outside every sequence. -/
  | plain
  | escape
  /-- Between an escape and the last byte of its sequence. -/
  | escapeInner
  /-- The parameters of a control sequence. -/
  | control
  | controlInner
  /-- A device control string that has just been opened. -/
  | device
  | deviceParameters
  | deviceInner
  | deviceData
  /-- An operating system command. -/
  | command
  /-- A start of string, a privacy message or an application command. -/
  | note
  deriving DecidableEq, Repr

namespace Escape

/-- A string whose bytes are data, whatever characters they make up. -/
def isData : Escape → Bool
  | .deviceData | .command => true
  | _ => false

/-- After a byte beyond ASCII that belongs to no character. -/
def high (b : UInt8) : Escape :=
  if b = 0x90 then .device
  else if b = 0x9b then .control
  else if b = 0x9d then .command
  else if b = 0x98 || b = 0x9e || b = 0x9f then .note
  else .plain

/-- After the byte that follows an escape. -/
def introduced (b : UInt8) : Escape :=
  if b < 0x20 || b = 0x7f then .escape
  else if b ≤ 0x2f then .escapeInner
  else if b = 0x50 then .device
  else if b = 0x5b then .control
  else if b = 0x5d then .command
  else if b = 0x58 || b = 0x5e || b = 0x5f then .note
  else .plain

def step (mode : Escape) (b : UInt8) : Escape :=
  if b = 0x18 || b = 0x1a then .plain
  else if b = 0x1b then (if mode = .device then .deviceData else .escape)
  else if mode.isData then
    if b = 0x9c || (b = 0x07 && mode = .command) then .plain else mode
  else if 0x80 ≤ b then high b
  else match mode with
    | .plain => .plain
    | .escape => introduced b
    | .escapeInner => if 0x30 ≤ b && b ≤ 0x7e then .plain else .escapeInner
    | .control =>
      if 0x40 ≤ b && b ≤ 0x7e then .plain
      else if 0x20 ≤ b && b ≤ 0x2f then .controlInner
      else .control
    | .controlInner => if 0x30 ≤ b && b ≤ 0x7e then .plain else .controlInner
    | .device =>
      if (0x08 ≤ b && b ≤ 0x0d) || (0x40 ≤ b && b ≤ 0x7e) then .deviceData
      else if 0x20 ≤ b && b ≤ 0x2f then .deviceInner
      else if 0x30 ≤ b && b ≤ 0x3f then .deviceParameters
      else .device
    | .deviceParameters =>
      if 0x40 ≤ b && b ≤ 0x7e then .deviceData
      else if 0x20 ≤ b && b ≤ 0x2f then .deviceInner
      else .deviceParameters
    | .deviceInner => if 0x30 ≤ b && b ≤ 0x7e then .deviceData else .deviceInner
    | .deviceData | .command | .note => mode

/-- Whether a byte of ASCII is shown. -/
def shows (mode : Escape) (b : UInt8) : Bool := mode = .plain && 0x20 ≤ b && b ≤ 0x7e

end Escape
end ProcLisp.Shell
