import ProcLisp.Log

/-!
# The archive's own log

The archive's storage reports with a format and arguments. Reports below a threshold are dropped
before they are formatted; routine ones at info are passed on at debug.
-/

namespace ProcLisp.Journal.StoreLog

inductive Arg where
  | number (n : Int)
  | text (s : Bytes)
  deriving DecidableEq, Repr

def Arg.bytes : Arg → Bytes
  | .number n => Bytes.ofInt n
  | .text s => s

/-- The type of an argument and its text. -/
def Arg.labelled : Arg → Bytes
  | .number n => ascii "int64=" ++ Bytes.ofInt n
  | .text s => ascii "string=" ++ s

/-- The letter after the percent sign at which an argument can stand: `d` or `s`. -/
def Arg.verb : Arg → UInt8
  | .number _ => 0x64
  | .text _ => 0x73

/-- What stands for `verb`: its argument, or what is wrong with it. -/
def fill (verb : UInt8) : Option Arg → Bytes
  | some arg =>
    if arg.verb = verb then arg.bytes
    else ascii "%!" ++ verb :: ascii "(" ++ arg.labelled ++ ascii ")"
  | none => ascii "%!" ++ verb :: ascii "(MISSING)"

/-- What is said of arguments that the format has no place for. -/
def leftOver : List Arg → Bytes
  | [] => []
  | args => ascii "%!(EXTRA " ++ Bytes.join (ascii ", ") (args.map Arg.labelled) ++ ascii ")"

/-- Fills in an argument for every `%d` and `%s`; `%%` is a percent sign. -/
def format : Bytes → List Arg → Bytes
  | 0x25 :: 0x25 :: rest, args => 0x25 :: format rest args
  | 0x25 :: verb :: rest, args => fill verb args.head? ++ format rest args.tail
  | [0x25], args => ascii "%!(NOVERB)" ++ leftOver args
  | c :: rest, args => c :: format rest args
  | [], args => leftOver args

example : format (ascii "%s: %d%%") [.text (ascii "used"), .number 7] = ascii "used: 7%" := by
  decide +kernel

example : format (ascii "%d") [.text (ascii "x"), .number 7] =
    ascii "%!d(string=x)%!(EXTRA int64=7)" := by decide +kernel

/-- The level at which a report is passed on. -/
def emitted : Log.Level → Log.Level
  | .info => .debug
  | level => level

/-- The entry that a report at `level` makes, if `threshold` and `handler` let it through. -/
def report (threshold handler level : Log.Level) (text : Bytes) (args : List Arg) :
    Option Log.Entry :=
  if level.passes threshold && (emitted level).passes handler then
    some { level := emitted level, message := format text args }
  else none

end ProcLisp.Journal.StoreLog
