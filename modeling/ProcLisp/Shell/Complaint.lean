import ProcLisp.Reader.Parse
import ProcLisp.Scheduler.Request

/-!
# Why something could not be done, as a user reads it
-/

namespace ProcLisp.Shell

inductive Complaint where
  | failed (f : Failure)
  | exited (reason : Value)
  | unreadable (position : Int) (what : Bytes)
  | timedOut
  | interrupted
  | plain (text : Bytes)

namespace Complaint

def describe : Complaint → Bytes
  | failed f => f.kind ++ ascii " " ++ f.payload.encode
  | exited reason => ascii "terminated " ++ reason.encode
  | unreadable position what => Reader.ParseError.text position what
  | timedOut => ascii "timed out"
  | interrupted => ascii "interrupted"
  | plain text => text

/-- A complaint that came up inside of something. Only a plain text tells of it. -/
def within (outer : Bytes) : Complaint → Complaint
  | plain text => plain (outer ++ ascii ": " ++ text)
  | c => c

def ofParseError (e : Reader.ParseError) : Complaint := unreadable e.position e.fault.message

end Complaint

/-- What an evaluation comes to. -/
abbrev Result := Except Complaint (Value × Env)

def Result.ofAnswer : Scheduler.Answer → Result
  | .value v env => .ok (v, env)
  | .failed f => .error (.failed f)
  | .exited _ reason => .error (.exited reason)

end ProcLisp.Shell
