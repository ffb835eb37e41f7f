/-!
# Finite maps with ordered keys

A dictionary is the list of its entries in strictly ascending key order, so equal contents mean
equal dictionaries. `Ordered` states the order; every operation keeps it.
-/

namespace ProcLisp

/-- The entries of a finite map, in ascending key order. -/
abbrev Dict (κ α : Type) := List (κ × α)

namespace Dict

variable {κ α : Type} [DecidableEq κ] [LT κ] [DecidableLT κ]

/-- Keys strictly ascend. -/
def Ordered (d : Dict κ α) : Prop := d.Pairwise fun a b => a.1 < b.1

instance (d : Dict κ α) : Decidable (Ordered d) :=
  inferInstanceAs (Decidable (d.Pairwise fun a b => a.1 < b.1))

def find? : Dict κ α → κ → Option α
  | [], _ => none
  | (l, w) :: rest, k => if l = k then some w else find? rest k

def contains (d : Dict κ α) (k : κ) : Bool := (find? d k).isSome

/-- Binds `k` to `v`, in place of any earlier value. -/
def insert : Dict κ α → κ → α → Dict κ α
  | [], k, v => [(k, v)]
  | (l, w) :: rest, k, v =>
    if k < l then (k, v) :: (l, w) :: rest
    else if l = k then (k, v) :: rest
    else (l, w) :: insert rest k v

def erase : Dict κ α → κ → Dict κ α
  | [], _ => []
  | (l, w) :: rest, k => if l = k then rest else (l, w) :: erase rest k

/-- Replaces the value at `k`, if there is one. -/
def modify : Dict κ α → κ → (α → α) → Dict κ α
  | [], _, _ => []
  | (l, w) :: rest, k, f => if l = k then (l, f w) :: rest else (l, w) :: modify rest k f

/-- Binds the entries one after the other, so that a later one wins. -/
def ofList (entries : List (κ × α)) : Dict κ α :=
  entries.foldl (fun d e => insert d e.1 e.2) []

def keys (d : Dict κ α) : List κ := d.map Prod.fst

end Dict
end ProcLisp
