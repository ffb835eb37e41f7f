import ProcLisp.Text.Printable
import ProcLisp.Text.Utf8

/-!
# Quoted text

A string is written between double quotes. Printable characters stand for themselves, the quote
and the backslash are escaped, seven control characters have a letter, and everything else is
written by its code: `\x` for a byte or an ASCII control character, `\u` or `\U` for the rest.
-/

namespace ProcLisp.Quoted

def quoteMark : UInt8 := 0x22
def backslash : UInt8 := 0x5c

/-- The letter that follows the backslash for a control character that has one. -/
def letter? (code : Nat) : Option UInt8 :=
  match code with
  | 0x07 => some 0x61
  | 0x08 => some 0x62
  | 0x0c => some 0x66
  | 0x0a => some 0x6e
  | 0x0d => some 0x72
  | 0x09 => some 0x74
  | 0x0b => some 0x76
  | _ => none

def escapeCode (mark : UInt8) (width code : Nat) : Bytes :=
  backslash :: mark :: Bytes.hex width code

def escape : Utf8.Piece → Bytes
  | .stray byte => escapeCode 0x78 2 byte.toNat
  | .scalar code =>
    if code = 0x22 || code = 0x5c then [backslash, code.toUInt8]
    else if isPrintable code then Utf8.encode code
    else match letter? code with
      | some c => [backslash, c]
      | none =>
        if code < 0x20 || code = 0x7f then escapeCode 0x78 2 code
        else if code < 0x10000 then escapeCode 0x75 4 code
        else escapeCode 0x55 8 code

/-- The quoted form of any byte string. -/
def quote (s : Bytes) : Bytes := quoteMark :: ((Utf8.pieces s).flatMap escape ++ [quoteMark])

end ProcLisp.Quoted
