import DocComments.Alias
import DocComments.Builtin
import DocComments.Config
import DocComments.Error
import DocComments.Token.Scan

/-!
# Reading a file

A file is read in steps: its line breaks are made alike, aliases are renamed, the comment at its head and
those in its body are found, and each of them becomes a block.

* `FileDocs`: the blocks of a file.
* `Parser.parseSource`: the documentation of a text.
* `Parser.parseFile`: the documentation of a file.
-/

namespace DocComments

/-- The documentation of one file. -/
structure FileDocs where
  header : Block := {}
  body : List Block := []
  deriving Inhabited

namespace FileDocs

def isEmpty (d : FileDocs) : Bool :=
  d.header.isEmpty && d.body.isEmpty

instance : BEq FileDocs := ⟨fun a b => a.header == b.header && a.body == b.body⟩

end FileDocs

/-- A registry and a configuration, with the languages that it resolves to. -/
structure Parser where
  registry : Registry
  config : Config
  languages : LanguageTable

namespace Parser

/-- The parser of a configuration, if its comment styles resolve. -/
def ofConfig (r : Registry) (c : Config) : Except Error Parser :=
  match LanguageTable.resolve c.styles with
  | .ok languages => .ok ⟨r, c, languages⟩
  | .error f => .error (.style f)

variable (p : Parser)

/-- The tokens of a file: that of its header, and those of its body, which starts behind the header. -/
def tokens (f : SourceFile) : Except GrammarFault (List Token × List Token) := do
  let header ← Scanner.ofGrammar f.language.header p.config.blankLines .header
  let body ← Scanner.ofGrammar f.language.body p.config.blankLines .body
  let headerTokens := header.tokenize f.lines 0
  let start := ((headerTokens.head?.bind (·.comment.last)).map (· + 1)).getD 0
  return (headerTokens, body.tokenize f.lines start)

/-- A text as it is read: line breaks made alike and aliases renamed. -/
def sourceFile (path text : String) : SourceFile :=
  let filetype := Path.filetype path
  let language := p.languages.forFiletype filetype
  let renamer := Renamer.ofLanguage language (p.registry.aliasMap filetype)
  { path := path, contents := renamer.rename (Text.foldBreaks text), language := language }

def builder (f : SourceFile) : Builder where
  registry := p.registry
  file := f
  maxDepth := p.config.maxAddDepth
  quiet := ! p.config.warnings

/-- An event of a file as a whole, if it is passed on. -/
def report (e : Event) : List Event := [e].filter (·.passes (! p.config.warnings))

/-- The documentation of a source file, and the events on the way. -/
def parseBlocks (f : SourceFile) : List Event × Except Error FileDocs :=
  match p.tokens f with
  | .error fault => ([], .error (.grammar fault))
  | .ok (header, body) =>
    match (p.builder f).buildAll header with
    | (es, .error fault) => (es, .error (.callback fault))
    | (es, .ok headers) =>
      match (p.builder f).buildAll body with
      | (es', .error fault) => (es ++ es', .error (.callback fault))
      | (es', .ok blocks) =>
        let read : Event := ⟨.file, { message := "parsed " ++ f.path, file := some f.path }⟩
        (es ++ es' ++ p.report read, .ok ⟨headers.head?.getD {}, blocks⟩)

/-- The documentation of a source file with markers in it; one without has none. -/
def parseAll (f : SourceFile) : List Event × Except Error FileDocs :=
  if f.language.appearsIn f.contents then p.parseBlocks f
  else
    (p.report ⟨.warning, { message := "doesn't contain any documentation", file := some f.path }⟩, .ok {})

/-- The documentation of a text, and the events on the way. Warnings are left out when they are not wanted. -/
def parseSource (path text : String) : List Event × Except Error FileDocs :=
  p.parseAll (p.sourceFile path text)

/-- The documentation of a file. The path is only made a text when the file has been read. -/
def parseFile (t : FileTree) (path : RawPath) : List Event × Except Error FileDocs :=
  match t.readText path with
  | .ok text => p.parseSource path.text text
  | .error f => ([], .error (.file f))

end Parser

end DocComments
