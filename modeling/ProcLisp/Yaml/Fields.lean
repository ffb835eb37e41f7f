import ProcLisp.Yaml.Meaning

/-!
# Named fields

A mapping gives fields by name. Under the plain key `<<` it may hold another mapping, or a sequence
of mappings, whose fields are merged into it: of the fields of one name, its own counts first, then
that of the earliest mapping.
-/

namespace ProcLisp.Yaml.Node

/-- The text of a scalar. -/
def text? : Node → Option (List Char)
  | .scalar s _ => some s
  | _ => none

/-- The key whose value is merged. -/
def isMerge : Node → Bool
  | .scalar s quoted => !quoted && s == ['<', '<']
  | _ => false

/-- The texts of the keys; every key is a scalar, and no two are written alike. -/
def keyTexts? (pairs : List (Node × Node)) : Option (List (List Char)) :=
  (pairs.mapM fun (p : Node × Node) => p.1.text?).bind fun keys =>
    if keys.eraseDups.length < keys.length then none else some keys

/-- The fields that the pairs give themselves; a null key names nothing. -/
def ownFields (pairs : List (Node × Node)) : List (Bytes × Node) :=
  pairs.filterMap fun p =>
    if p.1.isMerge || p.1.isNull then none else p.1.text?.map fun s => (Text.utf8 s, p.2)

/-- The value under the merge key. -/
def merged? (pairs : List (Node × Node)) : Option Node :=
  (pairs.find? fun p => p.1.isMerge).map (·.2)

/-- The mappings that a value merges, in order. -/
def mappings? : Node → Option (List Node)
  | .mapping pairs => some [.mapping pairs]
  | .sequence items =>
    if items.all fun n => n matches .mapping _ then some items else none
  | _ => none

/-- Adds the fields of mappings to those that are known, and what each of them merges. -/
def addFields? : Nat → List (Bytes × Node) → List Node → Option (List (Bytes × Node))
  | _, known, [] => some known
  | 0, _, _ => none
  | fuel + 1, known, n :: rest =>
    match n with
    | .mapping pairs => do
      let _ ← keyTexts? pairs
      let news := (ownFields pairs).filter fun f => !known.any fun k => k.1 == f.1
      let inner ← match merged? pairs with
        | none => some []
        | some value => value.mappings?
      addFields? fuel (known ++ news) (inner ++ rest)
    | _ => none

/-- How many nodes there are in a tree. -/
def size : Node → Nat
  | .scalar _ _ => 1
  | .sequence items => 1 + sizes items
  | .mapping pairs => 1 + pairSizes pairs
where
  sizes : List Node → Nat
  | [] => 0
  | n :: rest => n.size + sizes rest
  pairSizes : List (Node × Node) → Nat
  | [] => 0
  | p :: rest => p.1.size + p.2.size + pairSizes rest

/-- The fields of a mapping. Null has none. -/
def fields? (n : Node) : Option (List (Bytes × Node)) :=
  if n.isNull then some [] else addFields? (n.size + 1) [] [n]

end ProcLisp.Yaml.Node
