import ProcLisp.Text.Utf8

/-!
# The characters of a YAML text

A text is UTF-8, or UTF-16 when it starts with a byte order mark that says so. It is decoded in
blocks of 512 bytes, each when it is first needed: a block that cannot be decoded ends what can be
read, and does no harm to a reader that stops before it.
-/

namespace ProcLisp.Yaml

inductive Encoding where
  | utf8
  /-- Units of two bytes, the high one first if so said. -/
  | utf16 (highFirst : Bool)
  deriving DecidableEq, Repr

/-- What the bytes of a block start with. -/
inductive Decoded where
  | char (code : Nat) (rest : Bytes)
  /-- A character whose last bytes are not in the block. -/
  | short
  | bad

namespace Decoded

def ofCode? (code? : Option Nat) (rest : Bytes) : Decoded :=
  match code? with
  | some code => char code rest
  | none => bad

/-- The first byte tells how many follow. -/
def utf8 : Bytes → Decoded
  | [] => short
  | b :: s =>
    if b < 0x80 then char b.toNat s
    else if b < 0xc0 then bad
    else if b < 0xe0 then
      match s with
      | c :: s => ofCode? (Utf8.two? b c) s
      | _ => short
    else if b < 0xf0 then
      match s with
      | c :: d :: s => ofCode? (Utf8.three? b c d) s
      | _ => short
    else if b < 0xf8 then
      match s with
      | c :: d :: e :: s => ofCode? (Utf8.four? b c d e) s
      | _ => short
    else bad

def unit16 (highFirst : Bool) (b c : UInt8) : Nat :=
  if highFirst then 256 * b.toNat + c.toNat else 256 * c.toNat + b.toNat

/-- A high surrogate and the low one behind it are one character; neither stands alone. -/
def utf16 (highFirst : Bool) : Bytes → Decoded
  | b :: c :: s =>
    let unit := unit16 highFirst b c
    if unit / 1024 = 0x37 then bad
    else if unit / 1024 = 0x36 then
      match s with
      | d :: e :: s =>
        let low := unit16 highFirst d e
        if low / 1024 = 0x37 then char (0x10000 + unit % 1024 * 1024 + low % 1024) s else bad
      | _ => short
    else char unit s
  | _ => short

def next : Encoding → Bytes → Decoded
  | .utf8, s => utf8 s
  | .utf16 highFirst, s => utf16 highFirst s

end Decoded

/-- Tabs, line ends and what can be printed; no other control character. -/
def isAllowed (n : Nat) : Bool :=
  n == 0x09 || n == 0x0a || n == 0x0d || (0x20 ≤ n && n ≤ 0x7e) || n == 0x85 ||
    (0xa0 ≤ n && n ≤ 0xd7ff) || (0xe000 ≤ n && n ≤ 0xfffd) || 0x10000 ≤ n

/-- The characters of a block, in reverse before `done`, and the bytes of a character that goes on
in the next block. -/
def decodeBlock? (encoding : Encoding) : Nat → Bytes → List Char → Option (List Char × Bytes)
  | 0, s, done => some (done.reverse, s)
  | fuel + 1, s, done =>
    match Decoded.next encoding s with
    | .char code rest =>
      if isAllowed code then decodeBlock? encoding fuel rest (Char.ofNat code :: done) else none
    | .short => some (done.reverse, s)
    | .bad => none

/-- What can be read of a text. -/
structure Source where
  chars : List Char
  /-- How many characters each block holds. -/
  blocks : List Nat
  /-- Nothing stands behind the characters. -/
  whole : Bool

namespace Source

def blockSize : Nat := 512

/-- Decodes block after block, the first of `size` bytes. -/
def decode (encoding : Encoding) : Nat → Nat → Bytes → Source
  | 0, _, _ => ⟨[], [], true⟩
  | fuel + 1, size, s =>
    if s.isEmpty then ⟨[], [], true⟩
    else match decodeBlock? encoding size (s.take size) [] with
      | none => ⟨[], [], false⟩
      | some (chars, left) =>
        let behind := s.drop size
        if behind.isEmpty then ⟨chars, [chars.length], left.isEmpty⟩
        else
          let more := decode encoding fuel blockSize (left ++ behind)
          ⟨chars ++ more.chars, chars.length :: more.blocks, more.whole⟩

/-- A byte order mark at the start tells the encoding and belongs to the first block. -/
def ofBytes : Bytes → Source
  | 0xff :: 0xfe :: s => decode (.utf16 false) (s.length + 1) (blockSize - 2) s
  | 0xfe :: 0xff :: s => decode (.utf16 true) (s.length + 1) (blockSize - 2) s
  | 0xef :: 0xbb :: 0xbf :: s => decode .utf8 (s.length + 1) (blockSize - 3) s
  | s => decode .utf8 (s.length + 1) blockSize s

end Source
end ProcLisp.Yaml
