import ProcLisp.Yaml.Cursor

/-!
# The text of YAML scalars

A scalar is read in words with gaps between them. A gap on one line stays as it is; a gap across
lines is folded: one line end becomes a space, and of several the first is dropped. Texts are
collected in reverse.
-/

namespace ProcLisp.Yaml

/-- Blanks and line ends between two words of a scalar, the last ones first. -/
structure Gap where
  blanks : List Char := []
  breaks : List Char := []
  /-- Whether an escaped line end came first. -/
  joined : Bool := false

namespace Gap

def crossed (g : Gap) : Bool := g.joined || !g.breaks.isEmpty

/-- What the gap contributes to the scalar. -/
def text (g : Gap) : List Char :=
  if g.joined then g.breaks.reverse
  else match g.breaks.reverse with
    | [] => g.blanks.reverse
    | '\n' :: [] => [' ']
    | '\n' :: more => more
    | breaks => breaks

/-- Reads a gap. There is none where a tab stands in the first `limit` columns of a line. -/
def read? (limit : Nat) : Nat → Cursor → Gap → Option (Gap × Cursor)
  | 0, c, g => some (g, c)
  | fuel + 1, c, g =>
    match c.rest with
    | [] => some (g, c)
    | x :: _ =>
      if isBreak x then do
        let c ← c.need? 2
        let c ← c.skipLine.need? 1
        read? limit fuel c { g with breaks := breakText x :: g.breaks }
      else if isBlank x then
        if x == '\t' && g.crossed && c.column < limit then none
        else c.skip.need? 1 |>.bind fun c => read? limit fuel c { g with blanks := x :: g.blanks }
      else some (g, c)

end Gap

/-- `text` with a gap and a word behind it, all in reverse. -/
def joinWord (text : List Char) (g : Gap) (word : List Char) : List Char :=
  word ++ g.text.reverse ++ text

/-! ### Plain scalars -/

/-- Marks that end a plain scalar inside a flow collection. -/
def isFlowMark (c : Char) : Bool := ",?[]\x7b\x7d".toList.contains c

/-- Marks that start no plain scalar. -/
def isIndicator (c : Char) : Bool := "-?:,[]\x7b\x7d#&*!|>'\"%@`".toList.contains c

/-- Whether a plain scalar starts here. A dash starts one when no blank follows, a question mark and
a colon when no gap does. -/
def startsPlain : List Char → Bool
  | [] => false
  | c :: s =>
    if isGap c then false
    else if c == '-' || c == '?' || c == ':' then !wordEnds s
    else !isIndicator c

/-- The characters up to a gap, a colon at the end of a word or, in a flow collection, one of its
marks. -/
def plainWord? (flow : Bool) : Nat → Cursor → List Char → Option (List Char × Cursor)
  | 0, c, word => some (word, c)
  | fuel + 1, c, word =>
    match c.rest with
    | [] => some (word, c)
    | x :: s =>
      if isGap x || (x == ':' && wordEnds s) || (flow && isFlowMark x) then some (word, c)
      else (c.skip.need? 2).bind fun c => plainWord? flow fuel c (x :: word)

/-- A plain scalar that goes on over lines indented by `limit` columns at least, and whether its end
is on a line behind its last word. -/
def plain? (limit : Nat) (flow : Bool) :
    Nat → Cursor → List Char → Gap → Option (List Char × Bool × Cursor)
  | 0, _, _, _ => none
  | fuel + 1, c, text, gap => do
    let c ← c.need? 4
    if c.atSeparator || c.starts "#" then some (text, gap.crossed, c)
    else
      let (word, c) ← plainWord? flow fuel c []
      if word.isEmpty then some (text, gap.crossed, c)
      else
        let text := joinWord text gap word
        if !c.atGap then some (text, false, c)
        else
          let c ← c.need? 1
          let (gap, c) ← Gap.read? limit fuel c {}
          if !flow && c.column < limit then some (text, gap.crossed, c)
          else plain? limit flow fuel c text gap

/-! ### Quoted scalars -/

/-- The single quotation mark. -/
def apostrophe : Char := Char.ofNat 0x27

/-- The characters that a backslash and one letter stand for. -/
def escaped? (c : Char) : Option Char :=
  if c == apostrophe then some c
  else match c with
    | '0' => some '\x00'
    | 'a' => some '\x07'
    | 'b' => some '\x08'
    | 't' => some '\t'
    | '\t' => some '\t'
    | 'n' => some '\n'
    | 'v' => some '\x0b'
    | 'f' => some '\x0c'
    | 'r' => some '\r'
    | 'e' => some '\x1b'
    | ' ' => some ' '
    | '"' => some '"'
    | '\\' => some '\\'
    | 'N' => some '\u0085'
    | '_' => some '\u00a0'
    | 'L' => some '\u2028'
    | 'P' => some '\u2029'
    | _ => none

/-- How many hexadecimal digits follow the letter. -/
def codeWidth? : Char → Option Nat
  | 'x' => some 2
  | 'u' => some 4
  | 'U' => some 8
  | _ => none

/-- A character by its code in hexadecimal digits. -/
def coded? (digits : List Char) : Option Char :=
  let code? := digits.foldl (fun n? d => n?.bind fun n =>
    if d.toNat < 0x80 then (Bytes.hexValue? d.toNat.toUInt8).map (16 * n + ·) else none) (some 0)
  code?.bind fun n => if n.isValidChar then some (Char.ofNat n) else none

def skipMany : Nat → Cursor → Cursor
  | 0, c => c
  | n + 1, c => skipMany n c.skip

/-- The character of an escape sequence, from its backslash on. -/
def escape? (c : Cursor) : Option (Char × Cursor) :=
  match c.rest with
  | _ :: e :: s =>
    match codeWidth? e with
    | some n =>
      if s.length < n then none
      else (coded? (s.take n)).bind fun x =>
        (c.skip.skip.need? n).map fun c => (x, skipMany n c)
    | none => (escaped? e).map fun x => (x, c.skip.skip)
  | _ => none

/-- The characters up to a gap or the closing mark, and whether an escaped line end came last. In
single quotes the mark written twice stands for itself; in double quotes a backslash escapes. -/
def quotedWord? (mark : Char) : Nat → Cursor → List Char → Option (List Char × Bool × Cursor)
  | 0, c, word => some (word, false, c)
  | fuel + 1, c, word =>
    let go := fun (x : Char) (c : Cursor) => (c.need? 2).bind fun c =>
      quotedWord? mark fuel c (x :: word)
    match c.rest with
    | [] => some (word, false, c)
    | x :: s =>
      if isGap x then some (word, false, c)
      else if x == mark then
        if mark == apostrophe && s.head? == some apostrophe then go x c.skip.skip
        else some (word, false, c)
      else if mark == '"' && x == '\\' then
        if c.skip.atBreak then (c.need? 3).map fun c => (word, true, c.skip.skipLine)
        else (escape? c).bind fun (x, c) => go x c
      else go x c.skip

/-- The rest of a quoted scalar, after its opening mark. -/
def quoted? (mark : Char) : Nat → Cursor → List Char → Option (List Char × Cursor)
  | 0, _, _ => none
  | fuel + 1, c, text => do
    let c ← c.need? 4
    if c.atSeparator || c.rest.isEmpty then none
    else
      let (word, joined, c) ← quotedWord? mark fuel c []
      let text := word ++ text
      let c ← c.need? 1
      if c.rest.head? == some mark then some (text, c.skip)
      else
        let (gap, c) ← Gap.read? 0 fuel c { joined }
        quoted? mark fuel c (gap.text.reverse ++ text)

end ProcLisp.Yaml
