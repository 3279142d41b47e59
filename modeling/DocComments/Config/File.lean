import DocComments.Config.Decode
import DocComments.Error
import DocComments.Value.Printer
import DocComments.Value.Reader
import DocComments.Yaml.Printer
import DocComments.Yaml.Reader

/-!
# Configuration files

A configuration is kept in a file, as YAML when the extension says so and as JSON otherwise.

* `Config.load`: the configuration of a file.
* `Config.loadOrDefault`: the configuration of the working directory.
* `Config.save`: the files with a configuration written to one of them.
-/

namespace DocComments.Config

def isYaml (path : String) : Bool :=
  match Path.extension? path with
  | some e => e = "yml" || e = "yaml"
  | none => false

/-- The configuration that the text of a file spells. -/
def ofText (path text : String) : Except Error Config :=
  if isYaml path then
    match (Yaml.read? wanted text).bind decode? with
    | some c => .ok c
    | none => .error .yaml
  else
    match (Value.read? text).bind decode? with
    | some c => .ok c
    | none => .error .json

/-- The text of a configuration in a file. -/
def toText (c : Config) (path : String) : String :=
  if isYaml path then Yaml.print c.encode else c.encode.pretty

/-- The configuration of a file. -/
def load (t : FileTree) (path : RawPath) : Except Error Config :=
  match t.readText path with
  | .ok text => ofText path.text text
  | .error f => .error (.file f)

/-- The files that a configuration is looked for in. -/
def defaultPaths : List String :=
  [".docs.config.json", ".docs.config.yml", ".docs.config.yaml"]

/-- The configuration of the first file that is there. A file that cannot be read counts for nothing. -/
def loadOrDefault (t : FileTree) : Config :=
  match defaultPaths.find? (t.contains <| .ofText ·) with
  | none => {}
  | some path =>
    match load t (.ofText path) with
    | .ok c => c
    | .error _ => {}

/-- The files with a configuration written to one of them. -/
def save (c : Config) (t : FileTree) (path : RawPath) : Except Error FileTree :=
  match t.write path (c.toText path.text) with
  | .ok t => .ok t
  | .error f => .error (.file f)

end DocComments.Config
