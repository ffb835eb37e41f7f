import ProcLisp.Value.Basic

/-!
# The printed form of values

Ints, booleans, symbols, strings and lists of them are printed as the reader reads them. Maps,
lambdas, pids and errors have a printed form that the reader does not turn back.
-/

namespace ProcLisp.Value

/-- A bare value is printed as the empty value of its kind. -/
def bareText (k : Bytes) : Bytes :=
  if k = Kind.int then ascii "0"
  else if k = Kind.bool then ascii "#f"
  else if k = Kind.symbol then []
  else if k = Kind.string then Quoted.quote []
  else if k = Kind.list then ascii "()"
  else if k = Kind.map then ascii "\x7b\x7d"
  else if k = Kind.pid then ascii "#<pid " ++ Pid.nil.toBytes ++ ascii ">"
  else ascii "#<unknown>"

mutual

/-- The printed form of a value, before `rest`. -/
def write (v : Value) (rest : Bytes) : Bytes :=
  match v with
  | int n => Bytes.ofInt n.toInt ++ rest
  | bool true => ascii "#t" ++ rest
  | bool false => ascii "#f" ++ rest
  | sym name => name ++ rest
  | str text => Quoted.quote text ++ rest
  | list items => 0x28 :: writeItems items (0x29 :: rest)
  | map entries => 0x7b :: writeEntries entries (0x7d :: rest)
  | lambda _ params _ _ => ascii "#<lambda (" ++ Bytes.join [0x20] params ++ ascii ")>" ++ rest
  | pid p => ascii "#<pid " ++ p.toBytes ++ ascii ">" ++ rest
  | error kind payload => ascii "#<error " ++ kind ++ 0x20 :: write payload (0x3e :: rest)
  | bare k => bareText k ++ rest

/-- Items with a space between neighbours. -/
def writeItems (items : List Value) (rest : Bytes) : Bytes :=
  match items with
  | [] => rest
  | [x] => write x rest
  | x :: y :: more => write x (0x20 :: writeItems (y :: more) rest)

/-- Keys and values alternate. -/
def writeEntries (entries : Dict Bytes Value) (rest : Bytes) : Bytes :=
  match entries with
  | [] => rest
  | [(k, x)] => k ++ 0x20 :: write x rest
  | (k, x) :: e :: more => k ++ 0x20 :: write x (0x20 :: writeEntries (e :: more) rest)

end

mutual

theorem write_append (v : Value) (s t : Bytes) : v.write (s ++ t) = v.write s ++ t := by
  cases v with
  | list items => simp [write, ← writeItems_append items]
  | map entries => simp [write, ← writeEntries_append entries]
  | error kind payload => simp [write, ← write_append payload]
  | bool b => cases b <;> simp [write]
  | _ => simp [write]

theorem writeItems_append (items : List Value) (s t : Bytes) :
    writeItems items (s ++ t) = writeItems items s ++ t := by
  match items with
  | [] => simp [writeItems]
  | [x] => simp [writeItems, write_append x]
  | x :: y :: more => simp [writeItems, ← write_append x, writeItems_append (y :: more)]

theorem writeEntries_append (entries : Dict Bytes Value) (s t : Bytes) :
    writeEntries entries (s ++ t) = writeEntries entries s ++ t := by
  match entries with
  | [] => simp [writeEntries]
  | [(k, x)] => simp [writeEntries, write_append x]
  | (k, x) :: e :: more =>
    simp [writeEntries, ← write_append x, writeEntries_append (e :: more)]

end

/-- The printed form. -/
def encode (v : Value) : Bytes := v.write []

theorem write_eq_encode_append (v : Value) (rest : Bytes) : v.write rest = v.encode ++ rest := by
  rw [encode, ← write_append, List.nil_append]

/-- The printed form, except that a string stands without quotes. -/
def display : Value → Bytes
  | str text => text
  | v => encode v

end ProcLisp.Value
