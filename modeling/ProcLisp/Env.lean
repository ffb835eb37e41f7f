import ProcLisp.Failure

/-!
# Environments

An environment binds names to values and is never changed: every update makes a new one.
-/

namespace ProcLisp.Env

def lookup (env : Env) (name : Bytes) : Except Failure Value :=
  match Dict.find? env name with
  | some v => .ok v
  | none => .error (.unbound name)

def bind (env : Env) (name : Bytes) (v : Value) : Env := Dict.insert env name v

/-- Binds names one after the other, in place of earlier bindings. -/
def bindEach (env : Env) (bindings : List (Bytes × Value)) : Env :=
  bindings.foldl (fun env e => env.bind e.1 e.2) env

/-- Binds names one after the other, unless they are bound. -/
def fillIn (env : Env) (bindings : List (Bytes × Value)) : Env :=
  bindings.foldl (fun env e => if Dict.contains env e.1 then env else env.bind e.1 e.2) env

/-- An environment that is missing binds no name. -/
def count (env : Option Env) : Nat :=
  match env with
  | none => 0
  | some env => env.length

/-- `base` overlaid with `overlay`, whose bindings win. Either may be missing. The smaller one is
walked through, in the order of `walk`, and the larger one gets what it lacks. -/
def overlaid (walk : Env → List (Bytes × Value)) (base overlay : Option Env) : Env :=
  if count overlay = 0 then base.getD []
  else if count base = 0 then overlay.getD []
  else if count overlay ≤ count base then (base.getD []).bindEach (walk (overlay.getD []))
  else (overlay.getD []).fillIn (walk (base.getD []))

/-- `base` overlaid with `overlay`, walked through in the order of names. -/
def merge (base overlay : Env) : Env := overlaid id (some base) (some overlay)

/-- Binds parameters to arguments from left to right. -/
def bindAll (env : Env) : List Bytes → List Value → Env
  | p :: ps, v :: vs => bindAll (env.bind p v) ps vs
  | _, _ => env

end ProcLisp.Env
