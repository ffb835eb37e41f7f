import ProcLisp.Shell.Complaint
import ProcLisp.Shell.Files
import ProcLisp.Shell.Options
import ProcLisp.Syscall.Standard
import ProcLisp.Text.Quoted

/-!
# Running files

Each file is a program of its own, evaluated as a root process of one scheduler. A file that fails
does not keep the others from running.
-/

namespace ProcLisp.Shell

/-- What a run has come to so far. -/
structure Batch where
  scheduler : Scheduler
  /-- How long a file may take, in slices. -/
  patience : Nat
  files : Files
  /-- Standard output, the latest first. -/
  written : List Bytes := []
  /-- What is said on standard error, the latest first. -/
  notices : List Bytes := []
  failed : Bool := false

/-- What a run leaves behind. -/
structure Report where
  exit : Nat
  output : Bytes := []
  notices : List Bytes := []
  logs : List Log.Entry := []
  files : Files

/-- The lines of standard error that tell of an error or warn of something. -/
def Report.complaints (r : Report) : List Bytes :=
  (r.notices.flatMap (Bytes.splitOn 0x0a)).filter fun line =>
    (ascii "Error:").isPrefixOf line || (ascii "Warning:").isPrefixOf line

def errorNotice (text : Bytes) : Bytes := ascii "Error: " ++ text

namespace Batch

/-- More slices than any run that ends needs. -/
def unbounded : Nat := 1000000000000

/-- The slices that fit into a time; any number without a limit. -/
def slicesWithin (s : Scheduler) (timeout : Int) : Nat :=
  if timeout ≤ 0 then unbounded else s.slicesWithin timeout.toNat

def print (b : Batch) (text : Bytes) : Batch := { b with written := text :: b.written }

/-- Moves what programs printed to the output. -/
def flush (b : Batch) : Batch :=
  { b with scheduler := { b.scheduler with printed := [] } }.print b.scheduler.printed.text

/-- Runs a program to its end and gives its value. -/
def execute (b : Batch) (timeout : Int) (text : Bytes) : Batch × Except Complaint Value :=
  match Reader.parse text with
  | .error e => (b, .error (.ofParseError e))
  | .ok exprs => match b.scheduler.spawn exprs [] with
    | .error f => (b, .error (.plain f.message))
    | .ok (pid, scheduler) =>
      let b := { b with scheduler := (scheduler.await pid b.patience).2 }.flush
      match b.scheduler.answer? pid with
      | some a => (b, (Result.ofAnswer a).map Prod.fst)
      | none => (b, .error (if timeout ≤ 0 then .interrupted else .timedOut))

/-- Runs a file and prints its value, or says why there is none. -/
def runFile (b : Batch) (timeout : Int) (path : Bytes) : Batch :=
  let (b, r) : Batch × Except Complaint Value := match b.files.read path with
    | .error f => (b, .error (.plain (f.readMessage path)))
    | .ok text => b.execute timeout text
  match r with
  | .ok v => b.print (v.encode ++ ascii "\n")
  | .error c =>
    { b with
      failed := true
      notices := errorNotice (path ++ ascii ": " ++ c.describe) :: b.notices }

/-- Lists the recorded exits, with times as `stamp` writes them. -/
def listExits (stamp : Int64 → Bytes) (b : Batch) : Batch :=
  let b := b.print (ascii "Process exits\n")
  let visit := fun (acc : List Bytes) (r : Journal.Record) =>
    let line := ascii "  " ++ r.pid.toBytes ++ ascii "  " ++ stamp r.exitedAt ++ ascii "  " ++
      r.reason.encode ++ ascii "\n"
    (line :: acc, true)
  let (lines, fault) := b.scheduler.journal.iterate b.scheduler.clock visit []
  let b := { b with written := lines ++ b.written }
  match fault with
  | some f => { b with notices := errorNotice f.message :: b.notices }
  | none => if lines.isEmpty then b.print (ascii "  (none)\n") else b

def report (b : Batch) (exit : Nat) : Report :=
  { exit
    output := b.written.reverse.flatten
    notices := b.notices.reverse
    logs := b.scheduler.logs.reverse
    files := b.files }

/-- The last things a run does. -/
def finish (stamp : Int64 → Bytes) (o : Options) (b : Batch) : Report :=
  let b := if o.exits then b.listExits stamp else b
  let b := { b with scheduler := b.scheduler.stop }
  b.report (if b.failed then 1 else 0)

/-- The scheduler that settings ask for, and the files with a directory for its archive; none if
the archive cannot be opened. -/
def scheduler? (s : Settings) (fs : Files) (clock : Nat) : Option (Scheduler × Files) :=
  let make := fun journal owns =>
    Scheduler.create (.standard .opened) s.reductions s.maxFrames journal owns s.workers.toNat clock
  if s.journalDir.isEmpty then some (make (Journal.fresh s.retention 0 none) true, fs)
  else match fs.makeBelow s.journalDir (ascii "exits") with
    | .ok fs => some (make (Journal.fresh s.retention s.capacity (some [])) false, fs)
    | .error _ => none

/-- A run that starts no program. -/
def refuse (fs : Files) (exit : Nat) (notices : List Bytes) : Report :=
  { exit, notices, files := fs }

def generate (fs : Files) (path : Bytes) : Report :=
  match fs.write path Settings.defaultText with
  | .error f => refuse fs 1 [errorNotice (f.message "open" path)]
  | .ok files =>
    { exit := 0
      output := ascii "wrote default configuration to " ++ path ++ ascii "\n"
      files }

/-- Whether the prompt comes up after the files. -/
def interactive (o : Options) : Bool := o.repl || o.files.isEmpty

/-- The settings of a run: from the file if one is named, with the log level of the command line. -/
def settings (o : Options) (fs : Files) : Except Report Settings :=
  let loaded :=
    if o.configPath.isEmpty then .ok {} else Settings.load (fs.settingsSource o.configPath)
  match loaded with
  | .error f => .error (refuse fs 1
      [errorNotice (ascii "failed to load config " ++ o.configPath ++ ascii ": " ++ f.message)])
  | .ok s =>
    if !o.logLevel.isEmpty then .ok { s with level := o.logLevel }
    else if interactive o then .ok { s with level := ascii "warn" }
    else .ok s

/-- Starts the scheduler and runs the files. -/
def run (o : Options) (fs : Files) (clock : Nat) : Except Report Batch :=
  if !o.generatePath.isEmpty then .error (generate fs o.generatePath)
  else match settings o fs with
    | .error r => .error r
    | .ok s =>
      let notices := if (Log.Level.ofName? s.level).isSome then []
        else [ascii "Warning: unknown log level " ++ Quoted.quote s.level ++ ascii ", using info"]
      match scheduler? s fs clock with
      | none => .error (refuse fs 1 notices)
      | some (scheduler, fs) =>
        let scheduler := scheduler.start.toOption.getD scheduler
        let b : Batch :=
          { scheduler, patience := slicesWithin scheduler o.timeout, files := fs, notices }
        .ok (o.files.foldl (fun b path => b.runFile o.timeout path) b)

/-- A whole run from its arguments without a terminal; a prompt that is asked for fails there. -/
def ofArguments (stamp : Int64 → Bytes) (fs : Files) (clock : Nat) (args : List Bytes) : Report :=
  match Options.parse args with
  | .error .help => refuse fs 0 []
  | .error r => refuse fs 2 r.message?.toList
  | .ok o => match run o fs clock with
    | .error r => r
    | .ok b => { b with failed := b.failed || interactive o }.finish stamp o

end Batch
end ProcLisp.Shell
