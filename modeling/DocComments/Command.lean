import DocComments.Collection

/-!
# Commands

What can be asked for at the command line: the documentation of some files, the annotations there are, and
the comments of a language. A command finds a tree of files and leaves one behind, and has something to say.

* `Command`: the commands.
* `Transcript`: what a command says and leaves behind.
* `Command.run`: the transcript of a command.
-/

namespace DocComments

structure ParseOptions where
  paths : List RawPath
  /-- Where to write to, if not to the standard output. -/
  output : Option RawPath := none
  /-- Takes the place of what the configuration says. -/
  blankLines : Option Nat := none
  pretty : Bool := false

inductive Command where
  /-- The documentation of some files. -/
  | parse (o : ParseOptions)
  /-- The annotations for a file type. -/
  | annotations (filetype : String) (json : Bool)
  /-- The comments of a file type, or those of every language. -/
  | comments (filetype : Option String)

/-- What a command says and leaves behind. -/
structure Transcript where
  out : String := ""
  err : String := ""
  /-- Why it failed, if it did: what was tried first, the causes behind it. -/
  failure : Option (List String) := none
  files : FileTree

namespace Transcript

def failed (t : FileTree) (causes : List String) : Transcript :=
  { failure := some causes, files := t }

/-- Comes first, and what `s` says follows. -/
def sayErr (text : String) (s : Transcript) : Transcript :=
  { s with err := text ++ s.err }

end Transcript

namespace Command

/-- An error and what lies below it. -/
def chain (context : String) (e : Error) : List String :=
  context :: e.message :: e.source

def unlines (ls : List String) : String :=
  String.join (ls.map (· ++ "\n"))

/-- The snippets of warnings and errors, in turn. -/
def snippets (es : List Event) : String :=
  unlines ((es.filter fun e => e.level = .warning || e.level = .error).filterMap (·.diagnostic.snippet))

def counted (n : Nat) (line : String) : List String :=
  if n = 0 then [] else [line]

/-- The lines that close a run: what was found, and what went wrong. -/
def closing (c : Collected) : String :=
  let warnings := (Event.ofLevel .warning c.events).length
  let errors := (Event.ofLevel .error c.events).length
  unlines ([s!"  Files: {c.collection.files.size}", s!"  Blocks: {c.collection.blockCount}"] ++
    counted warnings s!"  ⚠ {warnings} warning(s)" ++ counted errors s!"  ✗ {errors} error(s)" ++
    c.collection.failures.map fun f => "  ✗ " ++ f.path ++ ": " ++ f.error)

/-- A run fails when a file could not be read. -/
def verdict (c : Collected) : Option (List String) :=
  let n := c.collection.failures.length
  if n = 0 then none else some [s!"{n} file(s) failed to parse"]

/-- The directory of a file is made when it is not there. -/
def makeParent (t : FileTree) (path : RawPath) : Except FileFault FileTree :=
  match path.parent? with
  | some parent => if parent.bytes.isEmpty || t.contains parent then .ok t else t.makeDirs parent
  | none => .ok t

/-- Writes a collection to a file. -/
def writeTo (t : FileTree) (path : RawPath) (pretty : Bool) (c : Collected) : Transcript :=
  match makeParent t path with
  | .error f => .failed t [f.reason]
  | .ok t =>
    match c.collection.save t path pretty with
    | .error e => .failed t (chain ("writing " ++ path.text) e)
    | .ok t =>
      { err := "✓ Documentation written to " ++ path.text ++ "\n" ++ closing c, failure := verdict c, files := t }

def runParse (now : Timestamp) (t : FileTree) (config : Config) (o : ParseOptions) : Transcript :=
  if o.paths.isEmpty then .failed t ["no files given"]
  else
    match Parser.ofConfig .builtin { config with blankLines := o.blankLines.getD config.blankLines } with
    | .error e => .failed t (chain "resolving comment styles" e)
    | .ok p =>
      let c := p.collect now t o.paths
      Transcript.sayErr (snippets c.events) <|
        match o.output with
        | some path => writeTo t path o.pretty c
        | none =>
          { out := c.collection.toJson o.pretty ++ "\n", err := closing c, failure := verdict c, files := t }

/-- An annotation, its other names and what is done for it besides reading. -/
def annotationLine (s : Registry.Summary) : String :=
  let hooks := (if s.autofill then ["autofill"] else []) ++ if s.resolve then ["resolve"] else []
  "  @" ++ s.name ++
    (if s.aliases.isEmpty then "" else " (" ++ String.intercalate ", " s.aliases ++ ")") ++
    if hooks.isEmpty then "" else " [" ++ String.intercalate ", " hooks ++ "]"

def annotationList (filetype : String) (json : Bool) : String :=
  let rows := Registry.builtin.summary filetype
  if json then (Value.arr (rows.map (·.toValue))).pretty ++ "\n"
  else unlines (s!"→ {rows.length} annotations for {filetype}" :: rows.map annotationLine)

/-- A grammar in words. -/
def describe (g : Grammar) : String :=
  let multi :=
    match g.opening, g.closing with
    | some s, some e => [s ++ " ... " ++ e]
    | _, _ => []
  String.intercalate ", " (multi ++ (g.single.map ("line " ++ ·)).toList ++ ["prefix " ++ g.sigil] ++
    (g.inlineSigil.map ("inline " ++ ·)).toList)

def languageRows (name : String) (l : Language) : List String :=
  [name, "  header: " ++ describe l.header, "  body:   " ++ describe l.body]

def runComments (t : FileTree) (config : Config) (filetype : Option String) : Transcript :=
  match LanguageTable.resolve config.styles with
  | .error f => .failed t (chain "resolving comment styles" (.style f))
  | .ok table =>
    let rows :=
      match filetype with
      | some ft => languageRows ft (table.forFiletype ft)
      | none =>
        languageRows Style.fallback table.fallback ++
          table.languages.entries.flatMap fun (name, l) => languageRows name l
    { out := unlines rows, files := t }

/-- The transcript of a command. -/
def run (now : Timestamp) (t : FileTree) (config : Config) : Command → Transcript
  | .parse o => runParse now t config o
  | .annotations filetype json => { out := annotationList filetype json, files := t }
  | .comments filetype => runComments t config filetype

end Command

end DocComments
