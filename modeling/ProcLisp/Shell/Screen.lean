import ProcLisp.Shell.Escape
import ProcLisp.Text.Cluster
import ProcLisp.Text.Utf8

/-!
# Text set out on a terminal

A tab becomes four spaces, and the lines of one text are filled up to the width of the widest. A
line is as wide as its ASCII characters and clusters outside control strings.
-/

namespace ProcLisp.Shell.Screen

def tabWidth : Nat := 4

def expandTabs (s : Bytes) : Bytes :=
  s.flatMap fun c => if c = 0x09 then List.replicate tabWidth 0x20 else [c]

/-- A carriage return before the end of a line belongs to it. -/
def joinEnds : Bytes → Bytes
  | 0x0d :: 0x0a :: s => 0x0a :: joinEnds s
  | c :: s => c :: joinEnds s
  | [] => []

/-- A line as far as it is measured. -/
structure Gauge where
  /-- The columns before the open cluster. -/
  columns : Nat := 0
  mode : Escape := .plain
  cluster : Option Cluster := none

namespace Gauge

def byte (g : Gauge) (b : UInt8) : Gauge :=
  { g with columns := g.columns + (if g.mode.shows b then 1 else 0), mode := g.mode.step b }

/-- Without the open cluster, whose columns count. -/
def close (g : Gauge) : Gauge :=
  match g.cluster with
  | none => g
  | some c => { g with columns := g.columns + c.columns, cluster := none }

/-- A piece after a boundary. A byte that could start a character beyond ASCII opens a cluster and
leaves every sequence, except in the data of a string. -/
def enter (g : Gauge) (p : Utf8.Piece) : Gauge :=
  if p.isLed && !g.mode.isData then { g with mode := .plain, cluster := some (.start p.code) }
  else p.bytes.foldl byte g

def take (g : Gauge) (p : Utf8.Piece) : Gauge :=
  match g.cluster.bind fun c => c.extend? p.code with
  | some c => { g with cluster := some c }
  | none => g.close.enter p

end Gauge

/-- The columns of a line. -/
def width (line : Bytes) : Nat := ((Utf8.pieces line).foldl Gauge.take {}).close.columns

/-- Fills up a line to so many columns. -/
def fill (columns : Nat) (line : Bytes) : Bytes :=
  line ++ List.replicate (columns - width line) 0x20

def setOut (s : Bytes) : Bytes :=
  let lines := Bytes.splitOn 0x0a (joinEnds (expandTabs s))
  let columns := lines.foldl (fun n line => max n (width line)) 0
  Bytes.join [0x0a] (lines.map (fill columns))

example : setOut (ascii "a\tb") = ascii "a    b" := by decide +kernel

example : setOut (ascii "abc\r\nd") = ascii "abc\nd  " := by decide +kernel

example : width (Utf8.encode 0x65e5 ++ Utf8.encode 0x672c) = 4 := by decide +kernel

/-- A flag is as wide as its first half. -/
example : width (Utf8.encode 0x1f1e9 ++ Utf8.encode 0x1f1ea) = 2 := by decide +kernel

example : width (0x1b :: ascii "[31mred" ++ 0x1b :: ascii "[0m") = 3 := by decide +kernel

end ProcLisp.Shell.Screen
