import DocComments.CommandLine
import DocComments.Config.File
import Std.Time.DateTime.Timestamp

/-!
# The program

Reads the files that a command asks for, runs it, says what it says and writes what it wrote.
-/

namespace DocComments.Main

/-- The number that the system gives for an error. It may come with its sign turned. -/
def errorNumber (n : UInt32) : Nat :=
  if n.toNat < 0x80000000 then n.toNat else 0x100000000 - n.toNat

/-- What is at a path, if there is anything. -/
def nodeAt (path : String) : IO (Option FileNode) := do
  try
    return some (.file (← IO.FS.readBinFile path))
  catch e =>
    match e with
    | .noFileOrDirectory .. => return none
    | .inappropriateType _ n _ => return if errorNumber n = 21 then some .directory else none
    | .permissionDenied _ n _ => return some (.closed s!"Permission denied (os error {errorNumber n})")
    | e => return some (.closed (toString e))

/-- The steps on the way to a path, each as a path of its own. -/
def waysTo (path : RawPath) : List RawPath :=
  (List.range path.components.length).map fun i => path.upTo (i + 1)

/-- The files with what is on the way to a path. -/
def capture (t : FileTree) (path : RawPath) : IO FileTree :=
  (waysTo path).foldlM
    (fun t way => do
      match t.resolve way, ← nodeAt way.text with
      | .ok names, some n => return t.put names n
      | _, _ => return t)
    t

/-- Makes what is new in a tree of files. -/
def apply (old new : FileTree) : IO Unit :=
  (new.changes old).forM fun (path, n) =>
    match n with
    | .directory => IO.FS.createDirAll path.text
    | .file bytes => IO.FS.writeBinFile path.text bytes
    | .closed _ => return

def currentTime : IO Timestamp := do
  let now ← Std.Time.Timestamp.now
  return ⟨now.val.second.val, now.val.nano.val.toNat⟩

def fail (causes : List String) : IO UInt32 := do
  IO.eprint (CommandLine.failureText causes)
  return 1

def runCommand (c : Command) (config : Option String) (paths : List RawPath) : IO UInt32 := do
  let config := config <|> (← IO.getEnv "DOCS_CONFIG")
  let t ← (paths ++ (config.toList ++ Config.defaultPaths).map RawPath.ofText).foldlM capture {}
  let loaded :=
    match config with
    | some path => Config.load t (.ofText path)
    | none => .ok (Config.loadOrDefault t)
  match loaded with
  | .error e => fail (e.message :: e.source)
  | .ok config =>
    let r := c.run (← currentTime) t config
    apply t r.files
    IO.print r.out
    IO.eprint r.err
    match r.failure with
    | some causes => fail causes
    | none => return 0

end DocComments.Main

open DocComments in
def main (args : List String) : IO UInt32 := do
  match CommandLine.read args with
  | .help => IO.print CommandLine.usage; return 0
  | .version => IO.println ("docs " ++ Collection.currentVersion); return 0
  | .invalid reason => IO.eprint ("error: " ++ reason ++ "\n\n" ++ CommandLine.usage); return 2
  | .run c config => DocComments.Main.runCommand c config (CommandLine.Request.paths (.run c config))
