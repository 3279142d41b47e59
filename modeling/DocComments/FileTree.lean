import DocComments.RawPath

/-!
# Files

A tree of files and directories, as a program finds it and leaves it behind. Paths lead from the working
directory, or from the root when they start with a slash. The directories above the working directory and the
root are always there.

* `FileTree.find`: what a path leads to.
* `FileTree.readText`: the text of a file.
* `FileTree.write`: the tree with a file written.
* `FileTree.makeDirs`: the tree with a directory made, and those above it.
* `FileTree.changes`: what is new in a tree.
-/

namespace DocComments

/-- Why a file cannot be read or written. -/
inductive FileFault where
  | notFound
  | exists
  | notDirectory
  | isDirectory
  | nameTooLong
  /-- A path with a character that no name can have. -/
  | invalidPath
  | invalidText
  /-- Any other reason, as the system gives it. -/
  | system (reason : String)
  deriving DecidableEq

def FileFault.reason : FileFault → String
  | .notFound => "No such file or directory (os error 2)"
  | .exists => "File exists (os error 17)"
  | .notDirectory => "Not a directory (os error 20)"
  | .isDirectory => "Is a directory (os error 21)"
  | .nameTooLong => "File name too long (os error 36)"
  | .invalidPath => "file name contained an unexpected NUL byte"
  | .invalidText => "stream did not contain valid UTF-8"
  | .system reason => reason

inductive FileNode where
  | directory
  | file (bytes : ByteArray)
  /-- A file that cannot be read, for a reason of the system's. -/
  | closed (reason : String)

/-- The files and directories by the names on the way to them. The root has the empty name, and a name of two points leads
above the working directory. A directory stands before what is in it. -/
structure FileTree where
  nodes : List (List FileName × FileNode) := []

namespace FileTree

open RawPath (here above)

variable (t : FileTree)

/-- Whether names lead to a directory that is always there. -/
def isBase (names : List FileName) : Bool :=
  names = [[]] || names.all (· = above)

def node? (names : List FileName) : Option FileNode :=
  if isBase names then some .directory else t.nodes.lookup names

/-- The way upwards from a directory; there is none from the root. -/
def up : List FileName → List FileName
  | [] => [above]
  | name :: way =>
    if name = above then above :: name :: way
    else if name = [] && way.isEmpty then [[]]
    else way

/-- The bytes that a name may have. -/
def maxName : Nat := 255

/-- The bytes that a path may have. -/
def maxPath : Nat := 4095

/-- Follows the steps of a path from a directory; `way` holds the names on the way to it, last first. Every
step but the last has to lead to a directory. -/
def walk (way : List FileName) : List FileName → Except FileFault (List FileName)
  | [] => .ok way
  | step :: steps =>
    match t.node? way.reverse with
    | none => .error .notFound
    | some .directory =>
      if step = [] || step = here then walk way steps
      else if step = above then walk (up way) steps
      else if maxName < step.length then .error .nameTooLong
      else walk (step :: way) steps
    | some _ => .error .notDirectory

/-- The steps of a path that can be followed at all. -/
def steps (path : RawPath) : Except FileFault (List FileName) :=
  if path.bytes.contains 0 then .error .invalidPath
  else if path.bytes.isEmpty then .error .notFound
  else if maxPath < path.bytes.length then .error .nameTooLong
  else .ok path.steps

/-- Where a path starts. -/
def start (path : RawPath) : List FileName :=
  if path.isAbsolute then [[]] else []

/-- The names on the way to where a path leads, whether there is something or not. -/
def resolve (path : RawPath) : Except FileFault (List FileName) := do
  let way ← t.walk (start path) (← steps path)
  return way.reverse

/-- What a path leads to. -/
def find (path : RawPath) : Except FileFault FileNode := do
  let names ← t.resolve path
  match t.node? names with
  | some n => .ok n
  | none => .error .notFound

/-- Whether a path leads to anything. -/
def contains (path : RawPath) : Bool :=
  (t.find path).isOk

def isDirectory (path : RawPath) : Bool :=
  match t.find path with
  | .ok .directory => true
  | _ => false

def read (path : RawPath) : Except FileFault ByteArray := do
  match ← t.find path with
  | .directory => .error .isDirectory
  | .file bytes => .ok bytes
  | .closed reason => .error (.system reason)

/-- The text of a file. -/
def readText (path : RawPath) : Except FileFault String := do
  let bytes ← t.read path
  match String.fromUTF8? bytes with
  | some s => .ok s
  | none => .error .invalidText

/-- The nodes with one at a place, instead of what is there or behind all others. -/
def putIn (names : List FileName) (n : FileNode) : List (List FileName × FileNode) → List (List FileName × FileNode)
  | [] => [(names, n)]
  | e :: es => if e.1 = names then (names, n) :: es else e :: putIn names n es

/-- The tree with something at a place. -/
def put (names : List FileName) (n : FileNode) : FileTree :=
  ⟨putIn names n t.nodes⟩

/-- The tree with a text written to a file, which is made if it is not there. Behind a slash there can be no
file, whatever is there. -/
def write (path : RawPath) (text : String) : Except FileFault FileTree := do
  let back := (← steps path).reverse
  match back.dropWhile (· = []) with
  | [] => .error .isDirectory
  | last :: before =>
    let way ← t.walk (start path) before.reverse
    match t.node? way.reverse with
    | none => .error .notFound
    | some .directory =>
      if last = here || last = above || back.head? = some [] then .error .isDirectory
      else if maxName < last.length then .error .nameTooLong
      else
        let names := (last :: way).reverse
        match t.node? names with
        | some .directory => .error .isDirectory
        | some (.closed reason) => .error (.system reason)
        | _ => .ok (t.put names (.file text.toUTF8))
    | some _ => .error .notDirectory

/-- The tree with one more directory. -/
def makeDir (path : RawPath) : Except FileFault FileTree := do
  let names ← t.resolve path
  match t.node? names.dropLast, t.node? names with
  | none, _ => .error .notFound
  | some .directory, some _ => .error .exists
  | some .directory, none => .ok (t.put names .directory)
  | some _, _ => .error .notDirectory

/-- The tree with a directory, and those above it, of which there are at most `depth`. A directory that is
there already is left as it is. -/
def makeDirsFrom : (depth : Nat) → FileTree → RawPath → Except FileFault FileTree
  | depth, t, path =>
    if path.bytes.isEmpty then .ok t
    else
      match t.makeDir path with
      | .ok t => .ok t
      | .error .notFound =>
        match depth, path.parent? with
        | depth + 1, some parent =>
          match makeDirsFrom depth t parent with
          | .error f => .error f
          | .ok t =>
            match t.makeDir path with
            | .ok t => .ok t
            | .error f => if t.isDirectory path then .ok t else .error f
        | _, _ => .error .notFound
      | .error f => if t.isDirectory path then .ok t else .error f

/-- The tree with a directory, and those above it. -/
def makeDirs (path : RawPath) : Except FileFault FileTree :=
  makeDirsFrom path.components.length t path

/-- The tree with something at a path of plain steps, and the directories above it. -/
def putAt (path : RawPath) (n : FileNode) : FileTree :=
  let names := path.components
  let dirs := ((List.range names.length).map names.take).filter (! ·.isEmpty)
  (dirs.foldl (fun t ns => t.put ns .directory) t).put names n

/-- What is at places where it was not in `old`, directories before what is in them. -/
def changes (old : FileTree) : List (RawPath × FileNode) :=
  (t.nodes.filter fun (names, n) =>
    match n, old.nodes.lookup names with
    | .directory, some .directory => false
    | .file a, some (.file b) => a != b
    | .closed _, _ => false
    | _, _ => true).map fun (names, n) => (.ofSteps names, n)

end FileTree

end DocComments
