import ProcLisp.Shell.Complaint
import ProcLisp.Shell.LineEditor
import ProcLisp.Shell.Screen

/-!
# The interactive prompt

`update` takes one event and gives the new state with what is to be done about it. Input that is not
complete stays pending and is joined with the next line. At most one evaluation runs at a time, from
the environment that the last successful one left.
-/

namespace ProcLisp.Shell

structure Repl where
  line : LineEditor := {}
  /-- Lines that wait for more to complete them; never blank. -/
  pending : List Char := []
  running : Bool := false
  env : Env := []
  history : List (List Char) := []
  /-- Which entry of the history is shown; their number when none is. -/
  place : Nat := 0
  quitting : Bool := false

namespace Repl

inductive Key where
  | enter | up | down | left | right | home | last | backspace
  /-- Drops what was typed, or quits if there is nothing. -/
  | interrupt
  | leave
  deriving DecidableEq, Repr

inductive Event where
  | typed (text : List Char)
  | key (k : Key)
  /-- The running evaluation came to its end. -/
  | result (r : Result)

inductive Action where
  | print (line : Bytes)
  | listProcesses
  | evaluate (exprs : List Value) (env : Env)
  | quit

def banner : Bytes := ascii "isl  ctrl+d to quit, :ps lists processes"

def prompt (r : Repl) : Bytes := if r.pending.isEmpty then ascii "isl> " else ascii "...  "

/-- Complete input becomes the newest entry of the history. -/
def remember (r : Repl) (src : List Char) : Repl :=
  { r with pending := [], history := r.history ++ [src], place := r.history.length + 1 }

def complain (c : Complaint) : Action := .print (Screen.setOut (ascii "error: " ++ c.describe))

/-- The input that a line completes or adds to. -/
def source (r : Repl) : List Char :=
  Text.trim (if r.pending.isEmpty then r.line.text else r.pending ++ '\n' :: r.line.text)

/-- Takes the line: blank input and commands at once, incomplete input as pending, and a program to
be evaluated. -/
def submit (r : Repl) : Repl × List Action :=
  let echo := Action.print (r.prompt ++ Text.utf8 r.line.text)
  let src := r.source
  let r := { r with line := {} }
  if src.isEmpty then (r, [echo])
  else if src = "exit".toList ∨ src = "quit".toList then
    ({ r with quitting := true }, [echo, .quit])
  else if src = ":ps".toList then (r, [echo, .listProcesses])
  else match Reader.parse (Text.utf8 src) with
    | .ok exprs => ({ r.remember src with running := true }, [echo, .evaluate exprs r.env])
    | .error e =>
      if e.incomplete then ({ r with pending := src }, [echo])
      else (r.remember src, [echo, complain (.ofParseError e)])

/-- Shows an entry of the history, or an empty line past the newest. -/
def showEntry (r : Repl) (place : Nat) : Repl :=
  if r.history.isEmpty then r
  else match r.history[place]? with
    | some entry => { r with place, line := .ofText entry }
    | none => { r with place := r.history.length, line := {} }

def press (r : Repl) : Key → Repl × List Action
  | .leave => ({ r with quitting := true }, [.quit])
  | .interrupt =>
    if r.pending.isEmpty && r.line.text.isEmpty then ({ r with quitting := true }, [.quit])
    else ({ r with pending := [], line := {} }, [])
  | .up => (r.showEntry (r.place - 1), [])
  | .down => (r.showEntry (r.place + 1), [])
  | .enter => if r.running then (r, []) else r.submit
  | .left => ({ r with line := r.line.left }, [])
  | .right => ({ r with line := r.line.right }, [])
  | .home => ({ r with line := r.line.toStart }, [])
  | .last => ({ r with line := r.line.toEnd }, [])
  | .backspace => ({ r with line := r.line.backspace }, [])

/-- Only a success changes the environment. -/
def settle (r : Repl) : Result → Repl × List Action
  | .ok (v, env) => ({ r with running := false, env }, [.print (Screen.setOut v.encode)])
  | .error c => ({ r with running := false }, [complain c])

def update (r : Repl) : Event → Repl × List Action
  | .typed text => ({ r with line := r.line.type text }, [])
  | .key k => r.press k
  | .result res => r.settle res

end Repl
end ProcLisp.Shell
