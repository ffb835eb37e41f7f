import ProcLisp.Text.Bytes

/-!
# UTF-8

`pieces` cuts a byte string into the scalar values of its well-formed sequences and the bytes that
belong to none. A byte that starts no well-formed sequence stands alone, and reading goes on with
the next byte. A text of characters has white space and control characters of its own.
-/

namespace ProcLisp.Utf8

inductive Piece where
  | scalar (code : Nat)
  | stray (byte : UInt8)
  deriving DecidableEq, Repr

def isTail (c : UInt8) : Bool := 0x80 ≤ c && c ≤ 0xbf

/-- The low six bits of a continuation byte. -/
def tailBits (c : UInt8) : Nat := c.toNat - 0x80

def two? (b c : UInt8) : Option Nat :=
  if 0xc2 ≤ b && b ≤ 0xdf && isTail c then some ((b.toNat - 0xc0) * 64 + tailBits c) else none

/-- A surrogate and a code that two bytes could hold are refused. -/
def three? (b c d : UInt8) : Option Nat :=
  if 0xe0 ≤ b && b ≤ 0xef && isTail c && isTail d then
    let code := ((b.toNat - 0xe0) * 64 + tailBits c) * 64 + tailBits d
    if code < 0x800 || (0xd800 ≤ code && code ≤ 0xdfff) then none else some code
  else none

/-- A code beyond the last one or one that three bytes could hold is refused. -/
def four? (b c d e : UInt8) : Option Nat :=
  if 0xf0 ≤ b && b ≤ 0xf4 && isTail c && isTail d && isTail e then
    let code := (((b.toNat - 0xf0) * 64 + tailBits c) * 64 + tailBits d) * 64 + tailBits e
    if code < 0x10000 || 0x110000 ≤ code then none else some code
  else none

def pieces : Bytes → List Piece
  | [] => []
  | b :: rest =>
    if b < 0x80 then .scalar b.toNat :: pieces rest
    else match rest with
      | [] => [.stray b]
      | c :: rest =>
        match two? b c with
        | some code => .scalar code :: pieces rest
        | none =>
          match rest with
          | [] => .stray b :: pieces [c]
          | d :: rest =>
            match three? b c d with
            | some code => .scalar code :: pieces rest
            | none =>
              match rest with
              | [] => .stray b :: pieces [c, d]
              | e :: rest =>
                match four? b c d e with
                | some code => .scalar code :: pieces rest
                | none => .stray b :: pieces (c :: d :: e :: rest)
termination_by structural s => s

/-- Every byte belongs to a well-formed sequence. -/
def isValid (s : Bytes) : Bool :=
  (pieces s).all fun p => match p with
    | .scalar _ => true
    | .stray _ => false

/-- The sequence of one scalar value. -/
def encode (code : Nat) : Bytes :=
  if code < 0x80 then [code.toUInt8]
  else if code < 0x800 then [(0xc0 + code / 64).toUInt8, (0x80 + code % 64).toUInt8]
  else if code < 0x10000 then
    [(0xe0 + code / 4096).toUInt8, (0x80 + code / 64 % 64).toUInt8, (0x80 + code % 64).toUInt8]
  else
    [(0xf0 + code / 262144).toUInt8, (0x80 + code / 4096 % 64).toUInt8,
      (0x80 + code / 64 % 64).toUInt8, (0x80 + code % 64).toUInt8]

/-- The scalar value to read a piece as; a stray byte reads as the replacement character. -/
def Piece.code : Piece → Nat
  | .scalar code => code
  | .stray _ => 0xfffd

/-- The first byte could start a sequence of two or more. -/
def Piece.isLed : Piece → Bool
  | .scalar code => 0x80 ≤ code
  | .stray byte => 0xc2 ≤ byte && byte ≤ 0xf4

/-- The bytes a piece was read from. -/
def Piece.bytes : Piece → Bytes
  | .scalar code => encode code
  | .stray byte => [byte]

end ProcLisp.Utf8

/-! ### Texts of characters -/

namespace ProcLisp.Text

/-- The code points with the property White_Space. -/
def isSpace (c : Char) : Bool :=
  let n := c.toNat
  (0x09 ≤ n && n ≤ 0x0d) || n == 0x20 || n == 0x85 || n == 0xa0 || n == 0x1680 ||
    (0x2000 ≤ n && n ≤ 0x200a) || n == 0x2028 || n == 0x2029 || n == 0x202f || n == 0x205f ||
    n == 0x3000

def isControl (c : Char) : Bool := c.toNat < 0x20 || (0x7f ≤ c.toNat && c.toNat < 0xa0)

/-- Without the white space at both ends. -/
def trim (s : List Char) : List Char :=
  ((s.dropWhile isSpace).reverse.dropWhile isSpace).reverse

/-- The bytes of a text. -/
def utf8 (s : List Char) : Bytes := s.flatMap fun c => Utf8.encode c.toNat

/-- The characters of a byte string; a byte that belongs to none becomes the replacement
character. -/
def ofBytes (s : Bytes) : List Char := (Utf8.pieces s).map fun p => Char.ofNat p.code

end ProcLisp.Text
