import ProcLisp.Yaml.Token

/-!
# YAML documents

`Node.read?` reads the first document of a text: block mappings and sequences, flow collections in
brackets, and scalars. The entries of a collection are gathered in reverse. What follows the
document is looked at only as far as the scanner reads ahead.
-/

namespace ProcLisp.Yaml

inductive Node where
  | scalar (text : List Char) (quoted : Bool)
  | sequence (items : List Node)
  | mapping (pairs : List (Node × Node))
  deriving Repr

/-- What stands where nothing is written. -/
def Node.absent : Node := .scalar [] false

open Scanner (peek?)

mutual

/-- The node at the next token. Block collections stand only in `block`; the value of a key may be a
sequence whose dashes are in the column of the key. -/
def node? (block isValue : Bool) : Nat → Scanner → Option (Node × Scanner)
  | 0, _ => none
  | fuel + 1, s => do
    let (t, s) ← s.peek?
    match t with
    | .scalar text quoted => some (.scalar text quoted, s.take)
    | .flowSequenceStart => flowItems? true fuel [] s.take
    | .flowMappingStart => flowPairs? true fuel [] s.take
    | .blockEntry => if isValue then dashes? fuel [] s else none
    | .blockSequenceStart => if block then entries? fuel [] s.take else none
    | .blockMappingStart => if block then pairs? fuel [] s.take else none
    | _ => none

/-- A node, or nothing if one of the tokens comes next that can stand behind it. -/
def optional? (block isValue : Bool) (behind : List Token) :
    Nat → Scanner → Option (Node × Scanner)
  | 0, _ => none
  | fuel + 1, s => do
    let (t, s) ← s.peek?
    if behind.contains t then some (.absent, s) else node? block isValue fuel s

/-- The value of a key, if there is one. -/
def value? (block : Bool) (behind : List Token) : Nat → Scanner → Option (Node × Scanner)
  | 0, _ => none
  | fuel + 1, s => do
    let (t, s) ← s.peek?
    if t = .value then optional? block block behind fuel s.take else some (.absent, s)

/-- The entries of a flow sequence; a pair among them is a mapping of its own. -/
def flowItems? (first : Bool) : Nat → List Node → Scanner → Option (Node × Scanner)
  | 0, _, _ => none
  | fuel + 1, items, s => do
    let (t, s) ← s.peek?
    if t = .flowSequenceEnd then some (.sequence items.reverse, s.take)
    else
      let s ← if first then some s else if t = .flowEntry then some s.take else none
      let (t, s) ← s.peek?
      match t with
      | .flowSequenceEnd => some (.sequence items.reverse, s.take)
      | .key =>
        let (pair, s) ← flowPair? fuel s.take
        flowItems? false fuel (pair :: items) s
      | _ =>
        let (item, s) ← node? false false fuel s
        flowItems? false fuel (item :: items) s

/-- A pair in a flow sequence. Where its key should be, a mark that could end it is passed. -/
def flowPair? : Nat → Scanner → Option (Node × Scanner)
  | 0, _ => none
  | fuel + 1, s => do
    let (t, s) ← s.peek?
    let (key, s) ←
      if [Token.value, .flowEntry, .flowSequenceEnd].contains t then some (.absent, s.take)
      else node? false false fuel s
    let (value, s) ← value? false [.flowEntry, .flowSequenceEnd] fuel s
    let (_, s) ← s.peek?
    some (.mapping [(key, value)], s)

/-- The pairs of a flow mapping; a key alone has no value. -/
def flowPairs? (first : Bool) : Nat → List (Node × Node) → Scanner → Option (Node × Scanner)
  | 0, _, _ => none
  | fuel + 1, pairs, s => do
    let (t, s) ← s.peek?
    if t = .flowMappingEnd then some (.mapping pairs.reverse, s.take)
    else
      let s ← if first then some s else if t = .flowEntry then some s.take else none
      let (t, s) ← s.peek?
      match t with
      | .flowMappingEnd => some (.mapping pairs.reverse, s.take)
      | .key =>
        let (key, s) ← optional? false false [.value, .flowEntry, .flowMappingEnd] fuel s.take
        let (value, s) ← value? false [.flowEntry, .flowMappingEnd] fuel s
        flowPairs? false fuel ((key, value) :: pairs) s
      | _ =>
        let (key, s) ← node? false false fuel s
        let (_, s) ← s.peek?
        flowPairs? false fuel ((key, .absent) :: pairs) s

/-- The entries of a block sequence. -/
def entries? : Nat → List Node → Scanner → Option (Node × Scanner)
  | 0, _, _ => none
  | fuel + 1, items, s => do
    let (t, s) ← s.peek?
    match t with
    | .blockEntry =>
      let (item, s) ← optional? true false [.blockEntry, .blockEnd] fuel s.take
      entries? fuel (item :: items) s
    | .blockEnd => some (.sequence items.reverse, s.take)
    | _ => none

/-- The entries of a block sequence in the column of its key. -/
def dashes? : Nat → List Node → Scanner → Option (Node × Scanner)
  | 0, _, _ => none
  | fuel + 1, items, s => do
    let (t, s) ← s.peek?
    if t = .blockEntry then
      let (item, s) ← optional? true false [.blockEntry, .key, .value, .blockEnd] fuel s.take
      dashes? fuel (item :: items) s
    else some (.sequence items.reverse, s)

/-- The pairs of a block mapping. -/
def pairs? : Nat → List (Node × Node) → Scanner → Option (Node × Scanner)
  | 0, _, _ => none
  | fuel + 1, pairs, s => do
    let (t, s) ← s.peek?
    match t with
    | .key =>
      let (key, s) ← optional? true true [.key, .value, .blockEnd] fuel s.take
      let (value, s) ← value? true [.key, .value, .blockEnd] fuel s
      pairs? fuel ((key, value) :: pairs) s
    | .blockEnd => some (.mapping pairs.reverse, s.take)
    | _ => none

end

/-- The first document. Without a line that starts it, it must not be empty. -/
def document? (fuel : Nat) (s : Scanner) : Option (Node × Scanner) := do
  let (t, s) ← s.peek?
  match t with
  | .textEnd => some (.absent, s)
  | .documentStart => optional? true false [.documentStart, .documentEnd, .textEnd] fuel s.take
  | _ => node? true false fuel s

/-- The first document of a text, which ends where the next token can be read. -/
def Node.read? (text : Bytes) : Option Node := do
  let s := Scanner.ofBytes text
  let (node, s) ← document? (16 * s.fuel) s
  let _ ← s.peek?
  some node

end ProcLisp.Yaml
