import ProcLisp.Machine.Step

/-!
# A scripted host

A process without a scheduler: its mail is a list given beforehand, and what it sends, watches and
forks is recorded. It can be told to refuse one kind of act.
-/

namespace ProcLisp

/-- The acts that a scripted host can refuse. -/
inductive Act where
  | send | fork | watch
  deriving DecidableEq, Repr

def Act.name : Act → Bytes
  | .send => ascii "send"
  | .fork => ascii "fork"
  | .watch => ascii "watch"

/-- A refused act, and whether it fails with a language error or with a plain text. -/
structure Refusal where
  act : Act
  plain : Bool
  deriving DecidableEq, Repr

def Refusal.trouble (r : Refusal) : Trouble :=
  if r.plain then .plain (r.act.name ++ ascii " refused")
  else .language (.raise ErrorKind.unknownProcess (.sym r.act.name))

/-- The records of a scripted host, newest first. -/
structure Script where
  self : Pid := Pid.nil
  inbox : List Value := []
  refusal : Option Refusal := none
  sent : List (Pid × Value) := []
  watched : List Pid := []
  children : List Machine := []
  /-- How many pids were issued. -/
  issued : Nat := 0
  printed : Transcript := []

namespace Script

def refused? (s : Script) (act : Act) : Option Trouble :=
  match s.refusal with
  | some r => if r.act = act then some r.trouble else none
  | none => none

def send (receiver : Pid) (msg : Value) (s : Script) : Except Trouble Script :=
  match s.refused? .send with
  | some e => .error e
  | none => .ok { s with sent := (receiver, msg) :: s.sent }

def receive (s : Script) : Option (Value × Script) :=
  match s.inbox with
  | [] => none
  | msg :: rest => some (msg, { s with inbox := rest })

def fork (_ : Birth) (child : Machine) (s : Script) : Except Trouble (Pid × Script) :=
  match s.refused? .fork with
  | some e => .error e
  | none =>
    let pid := Pid.issued (s.issued + 1)
    .ok (pid, { s with issued := s.issued + 1, children := child.adopt pid :: s.children })

def watch (target : Pid) (s : Script) : Except Trouble Script :=
  match s.refused? .watch with
  | some e => .error e
  | none => .ok { s with watched := target :: s.watched }

def print (text : Bytes) (s : Script) : Script := { s with printed := text :: s.printed }

def host (self : Pid) : Host Script := { self, send, receive, fork, watch }

/-- The world of a machine with or without its host. -/
def world (self : Option Pid) : World Script := { print, host := self.map host }

end Script
end ProcLisp
