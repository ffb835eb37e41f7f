import Std.Time.DateTime.Timestamp
import ProcLisp.Shell.Batch
import ProcLisp.Shell.Session
import ProcLisp.Text.Timestamp

/-!
# The command line

Reads the files that the arguments name, runs them, and brings up the prompt if there are none or it
is asked for.
-/

namespace ProcLisp.Main

open Shell

def text (s : Bytes) : String := String.ofList (Text.ofBytes s)

def put (h : IO.FS.Stream) (s : Bytes) : IO Unit := h.write s.toByteArray

def putLine (h : IO.FS.Stream) (s : Bytes) : IO Unit := put h (s ++ [0x0a])

def usage : List String :=
  ["  -config string", "  -exits", "  -generate-config string", "  -log-level string", "  -repl",
   "  -timeout duration"]

/-- The system's code for reading a directory as a file. -/
def isDirectoryCode : UInt32 := 21

/-- What stands where no file could be read; nothing if the path is missing. -/
def obstacle? : IO.Error → Option Files.Entry
  | .noFileOrDirectory .. => none
  | .inappropriateType _ code _ =>
    some (if code = isDirectoryCode then .directory else .shut .notDirectory)
  | _ => some (.shut .denied)

/-- What stands at a path. -/
def probe (path : Bytes) : IO (Option Files.Entry) := do
  try
    let content ← IO.FS.readBinFile (text path)
    return some (.file content.toList)
  catch e => return obstacle? e

/-- Adds what stands at a path, and at every place on the way. -/
def survey (fs : Files) (path : Bytes) : IO Files :=
  (List.range (path.length + 1)).foldlM (fun fs n => do
    let lead := path.take n
    if lead.isEmpty || (path.drop n).head?.getD 0x2f != 0x2f then return fs
    return ((← probe lead).map (fs.install lead)).getD fs) fs

def filesOf (o : Options) : IO Files :=
  (o.generatePath :: o.configPath :: o.files).foldlM survey Files.standard

def now : IO Nat := do
  let t ← Std.Time.Timestamp.now
  return t.toNanosecondsSinceUnixEpoch.val.toNat

def emit (r : Report) : IO UInt32 := do
  put (← IO.getStdout) r.output
  let err ← IO.getStderr
  for n in r.notices do putLine err n
  return r.exit.toUInt32

/-- Lines of standard input, typed at the prompt one after the other. -/
partial def converse (s : Session) : IO Session := do
  let out ← IO.getStdout
  put out s.repl.prompt
  out.flush
  let line ← (← IO.getStdin).getLine
  let event := if line.isEmpty then Repl.Event.key .leave else .key .enter
  let (s, _) := s.take (.typed (line.toList.filter (· != '\n')))
  let (s, shown) := s.answer event
  put out s.scheduler.printed.text
  for l in shown.lines.drop 1 do putLine out l
  let s := { s with scheduler := { s.scheduler with printed := [] } }
  if shown.quit then return s else converse s

def prompt (b : Batch) : IO Batch := do
  let out ← IO.getStdout
  put out b.written.reverse.flatten
  let err ← IO.getStderr
  for n in b.notices.reverse do putLine err n
  putLine out Repl.banner
  let s ← converse { scheduler := b.scheduler }
  return { b with scheduler := s.scheduler, written := [], notices := [] }

def run (args : List String) : IO UInt32 := do
  match Options.parse (args.map fun a => a.toUTF8.toList) with
  | .error r =>
    let err ← IO.getStderr
    for m in r.message?.toList do putLine err m
    for l in usage do putLine err (ascii l)
    return if r = .help then 0 else 2
  | .ok o =>
    match Batch.run o (← filesOf o) (← now) with
    | .error r =>
      if r.exit = 0 then IO.FS.writeBinFile (text o.generatePath) Settings.defaultText.toByteArray
      emit r
    | .ok b =>
      let b ← if Batch.interactive o then prompt b else pure b
      emit (b.finish (fun t => Timestamp.render t.toInt) o)

end ProcLisp.Main

def main (args : List String) : IO UInt32 := ProcLisp.Main.run args
