import ProcLisp.Log
import ProcLisp.Text.Utf8

/-!
# Settings of a run

How many workers run, how long a slice is, how deep a machine may nest, where and how long exits are
remembered, and from which level on entries are logged.
-/

namespace ProcLisp

/-- Names in any case; a capital I with a dot counts as an I. -/
def Log.Level.ofName? (name : Bytes) : Option Log.Level :=
  let lowered := (Utf8.pieces name).flatMap fun p => match p with
    | .scalar n => if n = 0x130 then ascii "i" else (Utf8.encode n).map Bytes.lower
    | .stray b => [b]
  if lowered = ascii "debug" then some .debug
  else if lowered = [] || lowered = ascii "info" then some .info
  else if lowered = ascii "warn" || lowered = ascii "warning" then some .warn
  else if lowered = ascii "error" then some .error
  else none

structure Settings where
  /-- Zero is one worker for each processor. -/
  workers : Int := 0
  reductions : Int := 200
  maxFrames : Int := 100000
  /-- Nanoseconds for which an exit stays in memory; zero keeps it. -/
  retention : Int := 600000000000
  /-- Where exits are archived; empty for no archive. -/
  journalDir : Bytes := []
  capacity : Nat := 0
  level : Bytes := ascii "info"
  deriving DecidableEq, Repr

namespace Settings

inductive Fault where
  | missing
  | unreadable
  | malformed
  | negativeWorkers
  | negativeReductions
  | negativeFrames
  | negativeRetention
  | unknownLevel
  deriving DecidableEq, Repr

def Fault.message : Fault → Bytes
  | missing => ascii "config file is missing"
  | unreadable => ascii "config file is unreadable"
  | malformed => ascii "config file is unmarshallable"
  | negativeWorkers => ascii "workers must not be negative"
  | negativeReductions => ascii "reductions must not be negative"
  | negativeFrames => ascii "maxFrames must not be negative"
  | negativeRetention => ascii "exits.retention must not be negative"
  | unknownLevel => ascii "logging.level must be one of debug, info, warn, error"

/-- The first fault, in the order of the fields. -/
def fault? (s : Settings) : Option Fault :=
  if s.workers < 0 then some .negativeWorkers
  else if s.reductions < 0 then some .negativeReductions
  else if s.maxFrames < 0 then some .negativeFrames
  else if s.retention < 0 then some .negativeRetention
  else if (Log.Level.ofName? s.level).isNone then some .unknownLevel
  else none

def validate (s : Settings) : Except Fault Settings :=
  match s.fault? with
  | some f => .error f
  | none => .ok s

/-- The file that spells out the default settings. -/
def defaultText : Bytes :=
  ascii "workers: 0
reductions: 200
maxFrames: 100000
exits:
    retention: 10m0s
    journalDir: \"\"
    capacity: 0
logging:
    level: info
"

end Settings
end ProcLisp
