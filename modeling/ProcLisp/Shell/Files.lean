import ProcLisp.Settings.Load

/-!
# Files by path

A tree of what exists, walked name by name: every directory on the way has to be there, also one
that `..` leaves again. Relative paths start at a working directory with a place of its own.
-/

namespace ProcLisp.Shell

namespace Files

inductive Fault where
  | missing
  | notDirectory
  | isDirectory
  | denied
  | nameTooLong
  | invalid
  deriving DecidableEq, Repr

def Fault.text : Fault → Bytes
  | missing => ascii "no such file or directory"
  | notDirectory => ascii "not a directory"
  | isDirectory => ascii "is a directory"
  | denied => ascii "permission denied"
  | nameTooLong => ascii "file name too long"
  | invalid => ascii "invalid argument"

/-- The names on the way from the root. -/
abbrev Place := List Bytes

inductive Entry where
  | file (text : Bytes)
  | directory
  /-- A directory in which nothing can be made, and why. -/
  | closed (fault : Fault)
  /-- Reads as empty, and drops what is written to it. -/
  | sink
  /-- Something that cannot be used. -/
  | shut (fault : Fault)
  deriving DecidableEq, Repr

end Files

/-- What exists below the root; everything else is missing. -/
abbrev Files := List (Files.Place × Files.Entry)

namespace Files

/-- What could not be done to a path, and why. -/
def Fault.message (f : Fault) (verb : String) (path : Bytes) : Bytes :=
  ascii verb ++ ascii " " ++ path ++ ascii ": " ++ f.text

/-- What could not be done in reading a path: a directory can be opened. -/
def Fault.readMessage (f : Fault) (path : Bytes) : Bytes :=
  f.message (if f = isDirectory then "read" else "open") path

def workingDirectory : Place := [ascii "tmp", ascii "work"]

/-- The directories that every tree starts from. -/
def standard : Files :=
  (["bin", "boot", "dev", "etc", "home", "lib", "lib64", "media", "mnt", "opt", "root", "run",
    "sbin", "srv", "tmp", "usr", "var"].map fun name => ([ascii name], Entry.directory)) ++
  [([ascii "proc"], .closed .missing), ([ascii "sys"], .closed .denied),
   ([ascii "dev", ascii "null"], .sink), (workingDirectory, .directory)]

def entry? (fs : Files) (p : Place) : Option Entry :=
  if p.isEmpty then some .directory else (fs.find? (·.1 = p)).map Prod.snd

/-- Puts an entry in place of what was there. -/
def put (fs : Files) (p : Place) (e : Entry) : Files := (p, e) :: fs.filter (·.1 != p)

/-- The bound on the bytes of a name. -/
def longestName : Nat := 255

/-- The bound on the bytes of a path. -/
def longestPath : Nat := 4095

/-- Where a name leads, wherever it is read. The root is its own parent. -/
def Place.follow (p : Place) (name : Bytes) : Place :=
  if name = [] || name = ascii "." then p
  else if name = ascii ".." then p.dropLast
  else p ++ [name]

/-- Where a path starts, and the names in it. -/
def route (path : Bytes) : Place × List Bytes :=
  match path with
  | 0x2f :: rest => ([], Bytes.splitOn 0x2f rest)
  | path => (workingDirectory, Bytes.splitOn 0x2f path)

/-- The place that a path is about by its names alone. -/
def placeOf (path : Bytes) : Place := (route path).2.foldl Place.follow (route path).1

/-- Follows a name from a directory; the place it leads to need not exist. -/
def enter (fs : Files) (p : Place) (name : Bytes) : Except Fault Place :=
  match fs.entry? p with
  | none => .error .missing
  | some (.shut f) => .error f
  | some (.file _) | some .sink => .error .notDirectory
  | some .directory | some (.closed _) =>
    if name.length ≤ longestName then .ok (p.follow name) else .error .nameTooLong

/-- Follows names one after the other. -/
def walk (fs : Files) (p : Place) (names : List Bytes) : Except Fault Place :=
  names.foldlM (fun p name => fs.enter p name) p

/-- A path that can be looked for at all. -/
def check (path : Bytes) : Except Fault Unit :=
  if path.contains 0 then .error .invalid
  else if path.isEmpty then .error .missing
  else if path.length ≤ longestPath then .ok ()
  else .error .nameTooLong

def read (fs : Files) (path : Bytes) : Except Fault Bytes := do
  check path
  let (start, names) := route path
  match fs.entry? (← fs.walk start names) with
  | none => .error .missing
  | some (.file text) => .ok text
  | some .sink => .ok []
  | some .directory | some (.closed _) => .error .isDirectory
  | some (.shut f) => .error f

/-- Makes an entry of a directory that exists. -/
def create (fs : Files) (parent p : Place) (e : Entry) : Except Fault Files :=
  match fs.entry? parent with
  | some (.closed f) => .error f
  | _ => .ok (fs.put p e)

/-- Writes a file in a directory that exists. A path that ends in a slash, or in a name that leads
nowhere new, is a directory's. -/
def write (fs : Files) (path text : Bytes) : Except Fault Files := do
  check path
  let (start, names) := route path
  match names.reverse.dropWhile List.isEmpty with
  | [] => .error .isDirectory
  | last :: outer =>
    let parent ← fs.walk start (outer.reverse ++ [[]])
    if last = ascii "." || last = ascii ".." || names.getLast? = some [] then
      .error .isDirectory
    else
      let p ← fs.enter parent last
      match fs.entry? p with
      | none => fs.create parent p (.file text)
      | some (.file _) => .ok (fs.put p (.file text))
      | some .sink => .ok fs
      | some .directory | some (.closed _) => .error .isDirectory
      | some (.shut f) => .error f

/-- Makes a directory below `p`, unless there is one. -/
def makeDirectory (fs : Files) (p : Place) (name : Bytes) : Except Fault (Files × Place) := do
  let next ← fs.enter p name
  match fs.entry? next with
  | none => return (← fs.create p next .directory, next)
  | some .directory | some (.closed _) => return (fs, next)
  | some (.shut f) => .error f
  | some _ => .error .notDirectory

/-- Makes a directory for each name, one inside the other. -/
def makeDirectories (fs : Files) (p : Place) : List Bytes → Except Fault Files
  | [] => .ok fs
  | name :: rest => do
    let (fs, next) ← fs.makeDirectory p name
    makeDirectories fs next rest

/-- Makes the directory `name` below the directory `path`, with whatever leads there. The names of
the path count and not what they lead to, so that `..` undoes any name before it. -/
def makeBelow (fs : Files) (path name : Bytes) : Except Fault Files :=
  let p := (placeOf path).follow name
  if p.any (·.contains 0) then .error .invalid
  else if (Bytes.join (ascii "/") p).length < longestPath then fs.makeDirectories [] p
  else .error .nameTooLong

/-- The tree with an entry at a path, and with the directories on the way. -/
def install (fs : Files) (path : Bytes) (e : Entry) : Files :=
  let p := placeOf path
  ((fs.makeDirectories [] p.dropLast).toOption.getD fs).put p e

/-- A tree that has files in its working directory besides the standard ones; of two with one path
the later one counts. -/
def ofContents (files : List (Bytes × Bytes)) : Files :=
  files.foldl (fun fs (path, text) => fs.install path (.file text)) standard

/-- What loading settings finds at a path. -/
def settingsSource (fs : Files) (path : Bytes) : Settings.Source :=
  match fs.read path with
  | .ok text => .text text
  | .error .missing => .missing
  | .error _ => .unreadable

end Files
end ProcLisp.Shell
