import ProcLisp.Text.Bytes

/-!
# Times as text

A time is a number of nanoseconds since the start of 1970, and is written to the second in universal
time, as in `2009-11-10T23:00:00Z`.
-/

namespace ProcLisp.Timestamp

/-- Year, month and day of a number of days since the start of 1970. Years are counted from March,
so that a leap day ends one, in eras of 400 years. -/
def civil (days : Int) : Int × Nat × Nat :=
  let shifted := days + 719468
  let era := shifted / 146097
  let day := (shifted % 146097).toNat
  let year := (day - day / 1460 + day / 36524 - day / 146096) / 365
  let rest := day - (365 * year + year / 4 - year / 100)
  let month := (5 * rest + 2) / 153
  let date := rest - (153 * month + 2) / 5 + 1
  if month < 10 then (era * 400 + year, month + 3, date)
  else (era * 400 + year + 1, month - 9, date)

/-- At least `width` decimal digits. -/
def padded (width n : Nat) : Bytes :=
  let digits := Bytes.ofNat n
  List.replicate (width - digits.length) 0x30 ++ digits

def render (nanoseconds : Int) : Bytes :=
  let seconds := nanoseconds / 1000000000
  let (year, month, date) := civil (seconds / 86400)
  let time := (seconds % 86400).toNat
  padded 4 year.toNat ++ ascii "-" ++ padded 2 month ++ ascii "-" ++ padded 2 date ++ ascii "T" ++
    padded 2 (time / 3600) ++ ascii ":" ++ padded 2 (time / 60 % 60) ++ ascii ":" ++
    padded 2 (time % 60) ++ ascii "Z"

example : render 1257894000000000000 = ascii "2009-11-10T23:00:00Z" := by decide +kernel

example : render (-1) = ascii "1969-12-31T23:59:59Z" := by decide +kernel

end ProcLisp.Timestamp
