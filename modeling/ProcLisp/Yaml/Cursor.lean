import ProcLisp.Yaml.Source

/-!
# Places in a YAML text

A cursor holds what is left of a text, where that is, and how much of it is loaded. A reader asks
for the characters it is going to look at: blocks are loaded until there are as many. Wherever
`fuel` is asked for, more than the number of characters left is enough.
-/

namespace ProcLisp.Yaml

/-- The ends of lines. CR and LF together end one line. -/
def isBreak (c : Char) : Bool :=
  c == '\n' || c == '\r' || c == '\u0085' || c == '\u2028' || c == '\u2029'

def isBlank (c : Char) : Bool := c == ' ' || c == '\t'

def isGap (c : Char) : Bool := isBlank c || isBreak c

/-- A gap or the end comes next. -/
def wordEnds : List Char → Bool
  | [] => true
  | c :: _ => isGap c

/-- What the end of a line stands for in a scalar. The separators of lines and paragraphs stay
themselves. -/
def breakText (c : Char) : Char := if c == '\u2028' || c == '\u2029' then c else '\n'

def byteOrderMark : Char := '\ufeff'

structure Cursor where
  rest : List Char
  index : Nat := 0
  line : Nat := 0
  column : Nat := 0
  /-- Ends of lines since the last character that is no blank. -/
  newlines : Nat := 0
  /-- Loaded characters that are not read yet. Each attempt to load beyond the end counts as one. -/
  loaded : Nat := 0
  /-- The sizes of the blocks that are not loaded yet. -/
  blocks : List Nat := []
  /-- Nothing stands behind the last block. -/
  whole : Bool := true
  /-- The loaded text began with a byte order mark. -/
  marked : Bool := false

namespace Cursor

def ofBytes (s : Bytes) : Cursor :=
  let source := Source.ofBytes s
  { rest := source.chars, blocks := source.blocks, whole := source.whole }

/-- Loads blocks until `n` characters are loaded or the text ends. -/
def load? (n : Nat) (whole : Bool) (blocks : List Nat) (loaded : Nat) : Option (Nat × List Nat) :=
  match blocks with
  | [] => if n ≤ loaded then some (loaded, []) else if whole then some (loaded + 1, []) else none
  | size :: more =>
    if n ≤ loaded then some (loaded, size :: more) else load? n whole more (loaded + size)

/-- Makes sure that the next `n` characters can be looked at; `none` where they cannot be read. -/
def need? (n : Nat) (c : Cursor) : Option Cursor :=
  if n ≤ c.loaded then some c
  else (load? n c.whole c.blocks c.loaded).map fun (loaded, blocks) =>
    { c with loaded, blocks, marked := c.rest.head? == some byteOrderMark }

/-- Passes one character. -/
def skip (c : Cursor) : Cursor :=
  match c.rest with
  | [] => c
  | x :: s =>
    { c with
      rest := s, index := c.index + 1, column := c.column + 1, loaded := c.loaded - 1,
      newlines := if isBlank x then c.newlines else 0 }

/-- Passes the end of a line. -/
def skipLine (c : Cursor) : Cursor :=
  let (rest, n) := match c.rest with
    | '\r' :: '\n' :: s => (s, 2)
    | _ :: s => (s, 1)
    | [] => ([], 0)
  { c with
    rest, index := c.index + n, line := c.line + 1, column := 0, loaded := c.loaded - n,
    newlines := c.newlines + 1 }

def starts (c : Cursor) (s : String) : Bool := s.toList.isPrefixOf c.rest

/-- Starts with a mark that stands as a word of its own. -/
def startsWord (c : Cursor) (mark : String) : Bool :=
  c.starts mark && wordEnds (c.rest.drop mark.length)

def atBreak (c : Cursor) : Bool :=
  match c.rest with
  | [] => false
  | x :: _ => isBreak x

def atGap (c : Cursor) : Bool :=
  match c.rest with
  | [] => false
  | x :: _ => isGap x

/-- A line that separates documents. -/
def atSeparator (c : Cursor) : Bool :=
  c.column == 0 && (c.startsWord "---" || c.startsWord "...")

/-! ### Comments -/

/-- Passes the rest of a line. -/
def toLineEnd? : Nat → Cursor → Option Cursor
  | 0, c => some c
  | fuel + 1, c => do
    let c ← c.need? 1
    match c.rest with
    | [] => some c
    | x :: _ => if isBreak x then some c else toLineEnd? fuel c.skip

/-- How far to look for a comment. -/
def commentReach : Nat := 512

/-- Looks for a comment past what `passes` allows and gives its distance. -/
def comment? (passes : Char → Bool) : List Char → Nat → Cursor → Option (Option Nat × Cursor)
  | ahead, n, c =>
    if n ≥ commentReach then some (none, c)
    else (c.need? (n + 1)).bind fun c => match ahead with
      | [] => some (none, c)
      | x :: s =>
        if passes x then comment? passes s (n + 1) c
        else some (if x == '#' then some n else none, c)

/-- Passes blanks and ends of lines up to an index. -/
def skipTo (index : Nat) : Nat → Cursor → Cursor
  | 0, c => c
  | fuel + 1, c =>
    if index ≤ c.index then c
    else skipTo index fuel (if c.atBreak then c.skipLine else c.skip)

/-- Passes a comment at the end of a line that holds something else. -/
def lineComment? (fuel : Nat) (c : Cursor) : Option Cursor :=
  if c.newlines > 0 then some c
  else (comment? isBlank c.rest 0 c).bind fun (distance?, c) => match distance? with
    | none => some c
    | some n => (c.skipTo (c.index + n) n).toLineEnd? fuel

/-- Passes a comment and those on lines of their own that follow, up to the end of the last line.
Between two of them may be anything that does not show, tabs included. -/
def comments? : Nat → Cursor → Option Cursor
  | 0, c => some c
  | fuel + 1, c => do
    let c ← c.toLineEnd? fuel
    let c ← c.need? 2
    if c.starts "\n" || c.starts "\r" then
      let (distance?, c) ← comment? (fun x => isBlank x || x == '\n' || x == '\r') c.rest.tail 1 c
      match distance? with
      | none => some c
      | some n => comments? fuel (c.skipTo (c.index + n) n)
    else some c

end Cursor
end ProcLisp.Yaml
