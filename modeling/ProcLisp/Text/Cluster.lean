import ProcLisp.Text.Columns

/-!
# Clusters of characters

A reader sees a letter with its marks, a flag or a family of joined pictographs as one character.
`Cluster.extend?` follows the cluster boundary rules of Unicode 15.0: it takes one more character
into a cluster or finds the boundary before it.
-/

namespace ProcLisp

namespace Cluster

/-- What the end of a cluster says about the character after it. -/
inductive Ending where
  | other
  | carriageReturn
  | control
  | leading
  | vowel
  | trailing
  | prepend
  /-- A pictograph and its marks. -/
  | pictograph
  /-- A pictograph, its marks and a joiner. -/
  | joined
  /-- The first half of a flag. -/
  | halfFlag
  deriving DecidableEq, Repr

/-- The end of a cluster whose last character stands by itself. -/
def Ending.ofJoining : Joining → Ending
  | .carriageReturn => .carriageReturn
  | .lineFeed | .control => .control
  | .leading => .leading
  | .openSyllable | .vowel => .vowel
  | .closedSyllable | .trailing => .trailing
  | .prepend => .prepend
  | .pictograph => .pictograph
  | .regional => .halfFlag
  | .other | .extend | .joiner | .spacing => .other

/-- The end after one more character; none when the cluster ends before it. -/
def Ending.join? : Ending → Joining → Option Ending
  | .carriageReturn, .lineFeed => some .control
  | .carriageReturn, _ | .control, _ => none
  | _, .carriageReturn | _, .lineFeed | _, .control => none
  | .pictograph, .extend => some .pictograph
  | .pictograph, .joiner => some .joined
  | _, .extend | _, .joiner | _, .spacing => some .other
  | .prepend, k => some (ofJoining k)
  | .leading, .leading => some .leading
  | .leading, .vowel | .leading, .openSyllable => some .vowel
  | .leading, .closedSyllable => some .trailing
  | .vowel, .vowel => some .vowel
  | .vowel, .trailing | .trailing, .trailing => some .trailing
  | .joined, .pictograph => some .pictograph
  | .halfFlag, .regional => some .other
  | _, _ => none

end Cluster

/-- A cluster as far as it is read. -/
structure Cluster where
  /-- The class of its first character. -/
  first : Joining
  ending : Cluster.Ending
  columns : Nat
  deriving DecidableEq, Repr

namespace Cluster

def start (code : Nat) : Cluster :=
  let k := Joining.ofCode code
  { first := k, ending := .ofJoining k, columns := columnsOf code k }

/-- The columns of a cluster with one more character. A selector settles the width of a pictograph;
a flag and a syllable that starts with a leading consonant have the width of their first
character. -/
def widen (c : Cluster) (code : Nat) (k : Joining) : Nat :=
  match c.first with
  | .pictograph => if code = 0xfe0e then 1 else if code = 0xfe0f then 2 else c.columns
  | .regional | .leading => c.columns
  | _ => c.columns + columnsOf code k

/-- The cluster with one more character; none when that character starts another one. -/
def extend? (c : Cluster) (code : Nat) : Option Cluster :=
  let k := Joining.ofCode code
  (c.ending.join? k).map fun ending => { c with ending, columns := c.widen code k }

end Cluster
end ProcLisp
