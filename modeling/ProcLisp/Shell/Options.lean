import ProcLisp.Settings.Duration
import ProcLisp.Text.Quoted

/-!
# Command-line options

An option starts with one dash or two; its value follows an equals sign or is the next argument. The
first argument that is no option starts the list of files, and so does a lone `--`.
-/

namespace ProcLisp.Shell

structure Options where
  configPath : Bytes := []
  /-- Where to write the default settings instead of running anything. -/
  generatePath : Bytes := []
  logLevel : Bytes := []
  repl : Bool := false
  /-- Whether to list the exits of processes at the end. -/
  exits : Bool := false
  /-- Nanoseconds after which a file is given up on; none if not positive. -/
  timeout : Int := 0
  files : List Bytes := []
  deriving DecidableEq, Repr

namespace Options

/-- Why nothing is run. -/
inductive Refusal where
  | help
  | malformed (argument : Bytes)
  | unknown (name : Bytes)
  | notTruth (name value : Bytes)
  | notValue (name value : Bytes)
  | noValue (name : Bytes)
  deriving DecidableEq, Repr

/-- What is said about a refusal; nothing if help was asked for. -/
def Refusal.message? : Refusal → Option Bytes
  | help => none
  | malformed argument => some (ascii "bad flag syntax: " ++ argument)
  | unknown name => some (ascii "flag provided but not defined: -" ++ name)
  | notTruth name value => some (ascii "invalid boolean value " ++ Quoted.quote value ++
      ascii " for -" ++ name ++ ascii ": parse error")
  | notValue name value => some (ascii "invalid value " ++ Quoted.quote value ++
      ascii " for flag -" ++ name ++ ascii ": parse error")
  | noValue name => some (ascii "flag needs an argument: -" ++ name)

inductive Argument where
  | operand
  | separator
  | option (name : Bytes) (value? : Option Bytes)
  | malformed
  deriving DecidableEq, Repr

/-- The name up to an equals sign and the value after it. -/
def ofName (s : Bytes) : Argument :=
  match s with
  | [] => .malformed
  | c :: _ =>
    if c = 0x2d || c = 0x3d then .malformed
    else
      let (name, rest) := s.span (· != 0x3d)
      .option name (match rest with
        | _ :: value => some value
        | [] => none)

def Argument.read : Bytes → Argument
  | 0x2d :: 0x2d :: [] => .separator
  | 0x2d :: 0x2d :: s => ofName s
  | 0x2d :: c :: s => ofName (c :: s)
  | _ => .operand

/-- The spellings of a truth value. -/
def truth? (s : Bytes) : Option Bool :=
  if ["1", "t", "T", "TRUE", "true", "True"].any (ascii · = s) then some true
  else if ["0", "f", "F", "FALSE", "false", "False"].any (ascii · = s) then some false
  else none

/-- Sets an option that may stand without a value. -/
def setSwitch? (o : Options) (name : Bytes) (on : Bool) : Option Options :=
  if name = ascii "repl" then some { o with repl := on }
  else if name = ascii "exits" then some { o with exits := on }
  else none

/-- Sets an option that needs a value. The outer result is none for an unknown name. -/
def setValue? (o : Options) (name value : Bytes) : Option (Except Refusal Options) :=
  if name = ascii "config" then some (.ok { o with configPath := value })
  else if name = ascii "generate-config" then some (.ok { o with generatePath := value })
  else if name = ascii "log-level" then some (.ok { o with logLevel := value })
  else if name = ascii "timeout" then
    match Duration.parse? value with
    | some timeout => some (.ok { o with timeout })
    | none => some (.error (.notValue name value))
  else none

/-- A name that no option has; asking for help is one. -/
def refusalOf (name : Bytes) : Refusal :=
  if name = ascii "help" || name = ascii "h" then .help else .unknown name

/-- Sets an option to a value. -/
def set (o : Options) (name value : Bytes) : Except Refusal Options :=
  (o.setValue? name value).getD (.error (refusalOf name))

/-- Sets an option that was given `value?` with it. None for one that takes the next argument. -/
def setGiven? (o : Options) (name : Bytes) (value? : Option Bytes) :
    Option (Except Refusal Options) :=
  let on? := (value?.map truth?).getD (some true)
  match o.setSwitch? name (on?.getD false) with
  | some next =>
    some (if on?.isSome then .ok next else .error (.notTruth name (value?.getD [])))
  | none => match value? with
    | some value => some (o.set name value)
    | none => if (o.setValue? name []).isSome then none else some (.error (refusalOf name))

def parseFrom (o : Options) : List Bytes → Except Refusal Options
  | [] => .ok o
  | arg :: rest =>
    match Argument.read arg with
    | .operand => .ok { o with files := arg :: rest }
    | .separator => .ok { o with files := rest }
    | .malformed => .error (.malformed arg)
    | .option name value? =>
      match o.setGiven? name value? with
      | some (.ok next) => parseFrom next rest
      | some (.error r) => .error r
      | none => match rest with
        | [] => .error (.noValue name)
        | value :: rest => match o.set name value with
          | .ok next => parseFrom next rest
          | .error r => .error r

def parse (args : List Bytes) : Except Refusal Options := parseFrom {} args

end Options
end ProcLisp.Shell
