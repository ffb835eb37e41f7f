import ProcLisp.Machine.Run

/-!
# Evaluation outside of any process

`evalProgram` runs expressions in order on a machine of its own, which can print and nothing else.
It is given a number of rounds; an evaluation that needs more has no outcome.
-/

namespace ProcLisp

/-- What is left of an evaluation that stopped. -/
structure Evaluation where
  outcome : Machine.Outcome
  transcript : Transcript
  supply : Supply
  reductions : UInt64

/-- Evaluates `exprs` from `env` in at most `rounds` rounds. -/
def evalProgram (cfg : Machine.Config) (rounds : Nat) (exprs : List Value) (env : Env)
    (supply : Supply) : Option Evaluation :=
  let m : Machine := { supply }
  let p := (m.load exprs env).complete cfg World.solitary rounds []
  (p.machine.outcome? p.status).map fun outcome =>
    { outcome, transcript := p.state, supply := p.machine.supply,
      reductions := p.machine.reductions }

/-- Evaluates one expression. -/
def eval (cfg : Machine.Config) (rounds : Nat) (expr : Value) (env : Env) (supply : Supply) :
    Option Evaluation :=
  evalProgram cfg rounds [expr] env supply

end ProcLisp
