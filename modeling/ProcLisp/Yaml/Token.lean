import ProcLisp.Yaml.Scalar

/-!
# YAML tokens

A scanner turns a text into tokens, each when it is asked for. Whether a scalar or a flow collection
is a key shows only at the colon behind it, so the tokens that may turn out to follow a key wait in
a queue: the key and, where a block mapping starts with it, the start of the mapping are put before
them then. At least two tokens are read ahead of the one that is next.

Anchors, tags, directives and literal blocks are not part of the format.
-/

namespace ProcLisp.Yaml

inductive Token where
  | textEnd
  | documentStart
  | documentEnd
  | blockSequenceStart
  | blockMappingStart
  | blockEnd
  | flowSequenceStart
  | flowSequenceEnd
  | flowMappingStart
  | flowMappingEnd
  /-- The dash of a block sequence. -/
  | blockEntry
  /-- The comma of a flow collection. -/
  | flowEntry
  | key
  | value
  | scalar (text : List Char) (quoted : Bool)
  deriving DecidableEq, Repr

/-- Something that may turn out to be a key. -/
structure PendingKey where
  possible : Bool := false
  /-- Nothing but a key may stand here. -/
  required : Bool := false
  /-- The number of its token. -/
  number : Nat := 0
  index : Nat := 0
  line : Nat := 0
  column : Nat := 0
  deriving Repr

namespace PendingKey

/-- How many characters a key may have. -/
def reach : Nat := 1024

/-- A key is on one line and not too long. -/
def reaches (k : PendingKey) (c : Cursor) : Bool := c.line ≤ k.line && c.index ≤ k.index + reach

end PendingKey

structure Scanner where
  cursor : Cursor
  /-- More than the number of characters of the text. -/
  fuel : Nat
  /-- The tokens that are not taken yet. -/
  tokens : List Token := []
  /-- How many tokens were taken. -/
  taken : Nat := 0
  /-- How far the innermost block collection is indented, and one more; zero outside of any. -/
  limit : Nat := 0
  /-- The same of the collections around it. -/
  limits : List Nat := []
  /-- The number of open flow collections. -/
  flow : Nat := 0
  /-- Whether a key may start here. -/
  keyAllowed : Bool := true
  /-- The pending key of every open flow collection, the innermost first, and of the block. -/
  keys : List PendingKey := [{}]
  /-- For the number of a token the depth at which it is a pending key. -/
  keyDepths : List (Nat × Nat) := []

namespace Scanner

def ofBytes (s : Bytes) : Scanner :=
  let cursor := Cursor.ofBytes s
  { cursor, fuel := cursor.rest.length + 16 }

def push (t : Token) (s : Scanner) : Scanner := { s with tokens := s.tokens ++ [t] }

/-- Puts a token before the one with a number. -/
def insert (number : Nat) (t : Token) (s : Scanner) : Scanner :=
  let (before, behind) := s.tokens.splitAt (number - s.taken)
  { s with tokens := before ++ t :: behind }

/-- How deep collections may nest. -/
def maxDepth : Nat := 10000

/-! ### Indentation -/

/-- Opens a block collection in a column that is indented more than the last one. -/
def roll? (column : Nat) (add : Scanner → Scanner) (s : Scanner) : Option Scanner :=
  if s.flow > 0 || column < s.limit then some s
  else if s.limits.length ≥ maxDepth then none
  else some (add { s with limits := s.limit :: s.limits, limit := column + 1 })

/-- Closes the block collections that are indented by `limit` columns or more. -/
def unrollFrom (limit : Nat) : List Nat → Scanner → Scanner
  | [], s => s
  | outer :: limits, s =>
    if s.limit ≤ limit then s
    else unrollFrom limit limits (push .blockEnd { s with limit := outer, limits })

def unroll (limit : Nat) (s : Scanner) : Scanner :=
  if s.flow > 0 then s else unrollFrom limit s.limits s

/-! ### Pending keys -/

def forget (number : Nat) (s : Scanner) : Scanner :=
  { s with keyDepths := s.keyDepths.filter fun e => e.1 != number }

/-- Gives up the pending key of the innermost collection; one that is required is missed. -/
def dropKey? (s : Scanner) : Option Scanner :=
  match s.keys with
  | [] => some s
  | k :: outer =>
    if !k.possible then some s
    else if k.required then none
    else some (forget k.number { s with keys := { k with possible := false } :: outer })

/-- Notes that a key may start here. -/
def saveKey? (s : Scanner) : Option Scanner :=
  if !s.keyAllowed then some s
  else
    let c := s.cursor
    let k : PendingKey :=
      { possible := true, required := s.flow == 0 && s.limit == c.column + 1,
        number := s.taken + s.tokens.length, index := c.index, line := c.line, column := c.column }
    s.dropKey?.map fun s =>
      { s with keys := k :: s.keys.tail, keyDepths := (k.number, s.flow) :: s.keyDepths }

/-- Whether the pending key at a depth can still be one. One that cannot is given up. -/
def checkKey? (depth : Nat) (s : Scanner) : Option (Bool × Scanner) :=
  match if depth ≤ s.flow then s.keys[s.flow - depth]? else none with
  | none => some (false, s)
  | some k =>
    if !k.possible then some (false, s)
    else if k.reaches s.cursor then some (true, s)
    else if k.required then none
    else some (false, { s with keys := s.keys.set (s.flow - depth) { k with possible := false } })

/-! ### Tokens -/

/-- Passes blanks, comments and line ends. Indentation is made of spaces: outside flow collections a
tab is passed only where no key may start. -/
def skipBlanks? (tabs : Bool) : Nat → Cursor → Option Cursor
  | 0, c => some c
  | fuel + 1, c =>
    match c.rest with
    | [] => some c
    | x :: _ =>
      if x == ' ' || (tabs && x == '\t') then (c.skip.need? 1).bind (skipBlanks? tabs fuel)
      else some c

/-- Goes to the next token. While the loaded text begins with a byte order mark, the first character
of every line is passed. -/
def skipGap? : Nat → Scanner → Option Scanner
  | 0, s => some s
  | fuel + 1, s => do
    let c ← s.cursor.need? 1
    let c := if c.column == 0 && c.marked then c.skip else c
    let c ← c.need? 1
    let c ← skipBlanks? (s.flow > 0 || !s.keyAllowed) s.fuel c
    let c ← if c.starts "#" then c.comments? s.fuel else some c
    if c.atBreak then
      let c ← c.need? 2
      skipGap? fuel { s with cursor := c.skipLine, keyAllowed := s.keyAllowed || s.flow == 0 }
    else some { s with cursor := c }

/-- The end of the text; the line it is on ends too. -/
def fetchEnd? (s : Scanner) : Option Scanner :=
  let c := s.cursor
  let c := if c.column = 0 then c else { c with column := 0, line := c.line + 1 }
  (unroll 0 { s with cursor := c }).dropKey?.map fun s =>
    push .textEnd { s with keyAllowed := false }

/-- A line that separates documents. -/
def fetchSeparator? (t : Token) (s : Scanner) : Option Scanner :=
  (unroll 0 s).dropKey?.map fun s =>
    push t { s with keyAllowed := false, cursor := skipMany 3 s.cursor }

/-- A token of one character. -/
def pushMark (t : Token) (keyAllowed : Bool) (s : Scanner) : Scanner :=
  push t { s with keyAllowed, cursor := s.cursor.skip }

def fetchFlowStart? (t : Token) (s : Scanner) : Option Scanner :=
  s.saveKey?.bind fun s =>
    if s.flow ≥ maxDepth then none
    else
      let k : PendingKey := { number := s.taken + s.tokens.length }
      some (pushMark t true { s with flow := s.flow + 1, keys := k :: s.keys })

def fetchFlowEnd? (t : Token) (s : Scanner) : Option Scanner :=
  s.dropKey?.map fun s =>
    let s := match s.flow, s.keys with
      | n + 1, k :: outer => forget k.number { s with flow := n, keys := outer }
      | _, _ => s
    pushMark t false s

def fetchEntry? (s : Scanner) : Option Scanner := do
  let s ← if s.flow > 0 then some s
    else if s.keyAllowed then s.roll? s.cursor.column (push .blockSequenceStart)
    else none
  return pushMark .blockEntry true (← s.dropKey?)

/-- An explicit key. -/
def fetchKey? (s : Scanner) : Option Scanner := do
  let s ← if s.flow > 0 then some s
    else if s.keyAllowed then s.roll? s.cursor.column (push .blockMappingStart)
    else none
  return pushMark .key (s.flow == 0) (← s.dropKey?)

/-- A colon makes the pending key one, or follows an explicit key. -/
def fetchValue? (s : Scanner) : Option Scanner := do
  let (isKey, s) ← s.checkKey? s.flow
  match isKey, s.keys with
  | true, k :: outer =>
    let s ← (insert k.number .key s).roll? k.column (insert k.number .blockMappingStart)
    let s := forget k.number { s with keys := { k with possible := false } :: outer }
    return pushMark .value false s
  | _, _ =>
    let s ← if s.flow > 0 then some s
      else if s.keyAllowed then s.roll? s.cursor.column (push .blockMappingStart)
      else none
    return pushMark .value (s.flow == 0) s

def fetchQuoted? (mark : Char) (s : Scanner) : Option Scanner := do
  let s ← s.saveKey?
  let (text, c) ← quoted? mark s.fuel s.cursor.skip []
  return push (.scalar text.reverse true) { s with keyAllowed := false, cursor := c }

def fetchPlain? (s : Scanner) : Option Scanner := do
  let s ← s.saveKey?
  let (text, crossed, c) ← plain? s.limit (s.flow > 0) s.fuel s.cursor [] {}
  return push (.scalar text.reverse false) { s with keyAllowed := crossed, cursor := c }

/-- The token that starts with a character. -/
def fetchAt? (x : Char) (s : Scanner) : Option Scanner :=
  let c := s.cursor
  match x with
  | '[' => s.fetchFlowStart? .flowSequenceStart
  | '\x7b' => s.fetchFlowStart? .flowMappingStart
  | ']' => s.fetchFlowEnd? .flowSequenceEnd
  | '\x7d' => s.fetchFlowEnd? .flowMappingEnd
  | ',' => s.dropKey?.map (pushMark .flowEntry true)
  | _ =>
    if c.startsWord "-" then s.fetchEntry?
    else if x == '?' && (s.flow > 0 || c.startsWord "?") then s.fetchKey?
    else if x == ':' && (s.flow > 0 || c.startsWord ":") then s.fetchValue?
    else if x == apostrophe || x == '"' then s.fetchQuoted? x
    else if startsPlain c.rest then s.fetchPlain?
    else none

/-- Reads one more token. A comment behind it on its line goes with it, unless it is a dash. -/
def fetch? (s : Scanner) : Option Scanner := do
  let s ← skipGap? s.fuel s
  let s := s.unroll (s.cursor.column + 1)
  let c ← s.cursor.need? 4
  let s := { s with cursor := c }
  match c.rest with
  | [] => s.fetchEnd?
  | x :: _ =>
    if c.column == 0 && x == '%' then none
    else if c.atSeparator then s.fetchSeparator? (if x == '-' then .documentStart else .documentEnd)
    else
      let s ← s.fetchAt? x
      if s.tokens.getLast? = some .blockEntry then some s
      else (s.cursor.lineComment? s.fuel).map fun c => { s with cursor := c }

/-- Whether enough tokens are there: two behind the next one, which must not be a pending key. -/
def filled? (s : Scanner) : Option (Bool × Scanner) :=
  match s.tokens with
  | _ :: _ :: _ :: _ =>
    match s.keyDepths.find? fun e => e.1 == s.taken with
    | none => some (true, s)
    | some (_, depth) => (s.checkKey? depth).map fun (isKey, s) => (!isKey, s)
  | _ => some (false, s)

def fill? : Nat → Scanner → Option Scanner
  | 0, _ => none
  | fuel + 1, s => do
    let (enough, s) ← s.filled?
    if enough then some s else fill? fuel (← s.fetch?)

/-- The next token. -/
def peek? (s : Scanner) : Option (Token × Scanner) :=
  (fill? s.fuel s).bind fun s => s.tokens.head?.map fun t => (t, s)

/-- Passes the next token. -/
def take (s : Scanner) : Scanner := { s with tokens := s.tokens.tail, taken := s.taken + 1 }

end Scanner
end ProcLisp.Yaml
