import DocComments.Parser
import DocComments.Timestamp
import DocComments.DataTree
import DocComments.Value.Printer
import DocComments.Value.Reader

/-!
# Collections

A collection is the documentation of many files. Each file is read by itself: those with documentation are
kept by path, and those that cannot be read are listed as failures.

* `Parser.collect`: the collection of some files.
* `Collection.toJson`: a collection as text.
* `Collection.load`: the collection that a file holds.
-/

namespace DocComments

/-- A file that cannot be read. -/
structure CollectFailure where
  path : String
  error : String
  deriving DecidableEq

structure Collection where
  version : String
  generatedAt : Timestamp
  files : Table FileDocs := ∅
  failures : List CollectFailure := []

namespace Collection

/-- The version of what is written. -/
def currentVersion : String := "0.1.0"

def empty (now : Timestamp) : Collection := ⟨currentVersion, now, ∅, []⟩

/-- The number of blocks in the bodies of all files. -/
def blockCount (c : Collection) : Nat :=
  (c.files.entries.map fun (_, d) => d.body.length).foldl (· + ·) 0

end Collection

/-- What came of a number of files. -/
structure Collected where
  collection : Collection
  /-- What happened on the way: the events of each file in turn, then one for each failure. -/
  events : List Event
  /-- The files that were looked at. -/
  seen : List String

namespace Parser

/-- A collection with what came of one more file. -/
def addResult (c : Collection) (path : String) : Except Error FileDocs → Collection
  | .ok docs => if docs.isEmpty then c else { c with files := c.files.insert path docs }
  | .error e => { c with failures := c.failures ++ [⟨path, e.message⟩] }

def failureEvent? (path : String) : Except Error FileDocs → Option Event
  | .ok _ => none
  | .error e => some (.errorIn path e.message)

/-- The collection of some files. Each path is made a text before the file is looked for. -/
def collect (p : Parser) (now : Timestamp) (t : FileTree) (paths : List RawPath) : Collected :=
  let texts := paths.map RawPath.text
  let results := texts.map fun path => (path, p.parseFile t (.ofText path))
  { collection := results.foldl (fun c (path, _, r) => addResult c path r) (.empty now)
    events := results.flatMap (·.2.1) ++ results.filterMap fun (path, _, r) => failureEvent? path r
    seen := texts }

end Parser

namespace FileDocs

def toValue (d : FileDocs) : Value :=
  .obj [("header", d.header.toValue), ("body", .arr (d.body.map Block.toValue))]

end FileDocs

namespace Collection

open DataTree

def failureValue (f : CollectFailure) : Value :=
  .obj [("path", .str f.path), ("error", .str f.error)]

/-- The object that spells a collection. Failures are left out when there are none. -/
def toValue (c : Collection) : Value :=
  .obj ([("version", .str c.version), ("generated_at", .str c.generatedAt.text),
    ("files", .ofTable (c.files.map fun _ d => d.toValue))] ++
    if c.failures.isEmpty then [] else [("failures", .arr (c.failures.map failureValue))])

/-- A collection as text, on one line or on many. -/
def toJson (c : Collection) (pretty : Bool) : String :=
  if pretty then c.toValue.pretty else c.toValue.compact

def decodeBlock? (v : Draft) : Option Block :=
  (table? value? v).map Block.mk

def decodeDocs? (v : Draft) : Option FileDocs := do
  let fs ← fieldsOf? ["header", "body"] v
  let header ← required fs "header" decodeBlock?
  let body ← required fs "body" fun v => v.items?.bind (·.mapM decodeBlock?)
  return ⟨header, body⟩

def decodeFailure? (v : Draft) : Option CollectFailure := do
  let fs ← fieldsOf? ["path", "error"] v
  return ⟨← required fs "path" text?, ← required fs "error" text?⟩

/-- The collection that an object spells. Failures may be left out. -/
def decode? (v : Draft) : Option Collection := do
  let fs ← fieldsOf? ["version", "generated_at", "files", "failures"] v
  let version ← required fs "version" text?
  let time ← required fs "generated_at" fun v => (text? v).bind Timestamp.read?
  let files ← required fs "files" (table? decodeDocs?)
  let failures ← once fs ["failures"] fun v => v.items?.bind (·.mapM decodeFailure?)
  return ⟨version, time, files, failures.getD []⟩

/-- The collection that a file holds. What can be opened but not read counts as wrong data. -/
def load (t : FileTree) (path : RawPath) : Except Error Collection :=
  match t.readText path with
  | .ok text =>
    match (Value.read? text).bind decode? with
    | some c => .ok c
    | none => .error .json
  | .error .isDirectory => .error .json
  | .error .invalidText => .error .json
  | .error f => .error (.file f)

/-- The files with a collection written to one of them. -/
def save (c : Collection) (t : FileTree) (path : RawPath) (pretty : Bool) : Except Error FileTree :=
  match t.write path (c.toJson pretty) with
  | .ok t => .ok t
  | .error f => .error (.file f)

end Collection

end DocComments
