import ProcLisp.Text.Utf8

/-!
# Editing a line

A line is the text on either side of the cursor. It never holds control characters: a tab or a line
end becomes a space, and what has no place in a line is dropped.
-/

namespace ProcLisp.Shell

structure LineEditor where
  /-- Before the cursor, nearest first. -/
  before : List Char := []
  behind : List Char := []
  deriving DecidableEq, Repr

namespace LineEditor

def text (e : LineEditor) : List Char := e.before.reverse ++ e.behind

/-- The cursor's place, in characters. -/
def cursor (e : LineEditor) : Nat := e.before.length

/-- What typing or pasting `s` puts into a line. -/
def clean (s : List Char) : List Char :=
  s.filterMap fun c =>
    if c == '\t' || c == '\n' || c == '\r' then some ' '
    else if c == '\ufffd' || Text.isControl c then none
    else some c

/-- Types at the cursor. -/
def type (e : LineEditor) (s : List Char) : LineEditor :=
  { e with before := (clean s).reverse ++ e.before }

/-- A line with the cursor at its end. -/
def ofText (s : List Char) : LineEditor := ⟨(clean s).reverse, []⟩

def left : LineEditor → LineEditor
  | ⟨c :: before, behind⟩ => ⟨before, c :: behind⟩
  | e => e

def right : LineEditor → LineEditor
  | ⟨before, c :: behind⟩ => ⟨c :: before, behind⟩
  | e => e

def toStart (e : LineEditor) : LineEditor := ⟨[], e.text⟩

def toEnd (e : LineEditor) : LineEditor := ⟨e.text.reverse, []⟩

/-- Deletes the character before the cursor. -/
def backspace (e : LineEditor) : LineEditor := { e with before := e.before.tail }

end LineEditor
end ProcLisp.Shell
