import DocComments.Tag.Split
import DocComments.Registry

/-!
# From a comment to its block

The annotations of a comment are run one after the other, and what they give is merged into a block. Then
`autofill` callbacks supply what is missing, and `resolve` callbacks rework what is there. A callback may add
further annotations, whose callbacks may add more, up to a limit.

* `CallbackFault`: a callback that failed, and below it those that passed the failure on.
* `Builder.exec`: runs a script.
* `Builder.addAt`: adds an annotation, with some levels left.
* `Builder.build`: the block of a token.
-/

namespace DocComments

inductive Hook where
  | parse
  | autofill
  | resolve
  deriving DecidableEq

def Hook.name : Hook → String
  | .parse => "parse"
  | .autofill => "autofill"
  | .resolve => "resolve"

/-- A callback that failed. -/
structure CallbackFault where
  tag : String
  hook : Hook
  file : String
  source : Failure
  deriving DecidableEq

namespace CallbackFault

def message (f : CallbackFault) : String :=
  "@" ++ f.tag ++ " " ++ f.hook.name ++ " failed in " ++ f.file

/-- The messages of the fault, as a callback passes them on. -/
def chain (f : CallbackFault) : Failure :=
  f.message :: f.source

end CallbackFault

/-- What has come of a comment so far. -/
structure Progress where
  block : Block := {}
  events : List Event := []

namespace Progress

def emitAll (p : Progress) (es : List Event) : Progress := { p with events := p.events ++ es }

/-- Merges a value, if there is one. -/
def merge (p : Progress) (name : String) : Option Value → Progress
  | some v => { p with block := p.block.merge name v }
  | none => p

end Progress

/-- What blocks are built from: the registry, the file, how deep annotations may be added, and whether warnings are
kept back. -/
structure Builder where
  registry : Registry
  file : SourceFile
  maxDepth : Nat := 8
  quiet : Bool := false

namespace Builder

/-- How a script adds an annotation. -/
abbrev Adder := (name text : String) → Progress → Progress × Except CallbackFault (Option Value)

/-- A value that says something. -/
def notNull (v : Value) : Option Value :=
  if v.isNull then none else some v

variable (b : Builder)

/-- Tells of events, as far as they are passed on. -/
def tellAll (p : Progress) (es : List Event) : Progress := p.emitAll (es.filter (·.passes b.quiet))

def tell (p : Progress) (e : Event) : Progress := b.tellAll p [e]

/-- Runs a script to its end. -/
def exec (add : Adder) : Script Value → Progress → Progress × Except Failure Value
  | .done v, p => (p, .ok v)
  | .fail f, p => (p, .error f)
  | .emit e s, p => exec add s (b.tell p e)
  | .add name text next, p =>
    match add name text p with
    | (p, .ok v) => exec add (next (.ok v)) p
    | (p, .error f) => exec add (next (.error f.chain)) p

def filetype : String := b.file.filetype

def fault (tag : String) (hook : Hook) (source : Failure) : CallbackFault :=
  ⟨tag, hook, b.file.path, source⟩

def placeOf (t : Token) : Place := ⟨t.comment, t.code, t.kind, b.file⟩

/-- Runs the `parse` callback of a definition. -/
def parseWith (t : Token) (add : Adder) (d : Definition) (a : Tag) (default : Option Value)
    (p : Progress) : Progress × Except CallbackFault Value :=
  match b.exec add (d.parse { tag := a, place := b.placeOf t, default := default }) p with
  | (p, .ok v) => (p, .ok v)
  | (p, .error f) => (p, .error (b.fault a.name .parse f))

/-- Runs an annotation. Where a definition for the file type overrides one for all files, that one is run
first, and the other is told its value. -/
def runTag (t : Token) (add : Adder) (a : Tag) (p : Progress) :
    Progress × Except CallbackFault (Option Value) :=
  match b.registry.get? b.filetype a.name with
  | none => (b.tell p (.errorIn b.file.path ("'@" ++ a.name ++ "' isn't a registered annotation")), .ok none)
  | some d =>
    let a := a.prepare
    match b.registry.getOwn? b.filetype a.name, b.registry.getDefault? a.name with
    | some _, some base =>
      match b.parseWith t add base a none p with
      | (p, .error f) => (p, .error f)
      | (p, .ok v) =>
        match b.parseWith t add d a (some v) p with
        | (p, .error f) => (p, .error f)
        | (p, .ok v) => (p, .ok (notNull v))
    | _, _ =>
      match b.parseWith t add d a none p with
      | (p, .error f) => (p, .error f)
      | (p, .ok v) => (p, .ok (notNull v))

/-- An annotation that is added too deep is left out, with an error. -/
def refuse : Adder := fun name _ p =>
  (b.tell p (.errorIn b.file.path
    ("'@" ++ name ++ "' was added more than " ++ toString b.maxDepth ++ " levels deep, ignoring it")),
   .ok none)

/-- Adds an annotation that may itself add annotations `levels - 1` deep. What it gives is merged into the
block. -/
def addAt (t : Token) : (levels : Nat) → Adder
  | 0 => b.refuse
  | levels + 1 => fun word text p =>
    let name := (b.registry.canonical? b.filetype word).getD word
    let aliases := ((b.registry.aliases b.filetype).get? name).getD []
    match b.runTag t (addAt t levels) (.ofText name aliases text) p with
    | (p, .error f) => (p, .error f)
    | (p, .ok v) => (p.merge name v, .ok v)

/-- The annotations of a comment. -/
def tags (t : Token) : List Tag :=
  Splitter.split
    { sigil := (b.file.language.grammar t.kind).sigil
      names := b.registry.names b.filetype
      aliases := b.registry.aliases b.filetype
      quoted := b.file.language.lineMarkers }
    t.comment.contents

/-- Runs annotations one after the other and merges what they give. -/
def parseAll (t : Token) : List Tag → Progress → Progress × Except CallbackFault Unit
  | [], p => (p, .ok ⟨⟩)
  | a :: as, p =>
    match b.runTag t (b.addAt t b.maxDepth) a p with
    | (p, .error f) => (p, .error f)
    | (p, .ok v) => parseAll t as (p.merge a.name v)

/-- Supplies the values that a block lacks, name by name. -/
def autofillAll (t : Token) : List (String × Definition) → Progress → Progress × Except CallbackFault Unit
  | [], p => (p, .ok ⟨⟩)
  | (name, d) :: ds, p =>
    match d.autofill with
    | none => autofillAll t ds p
    | some autofill =>
      if p.block.contains name then autofillAll t ds p
      else
        let o := autofill { name := name, place := b.placeOf t, parsed := p.block }
        let p := b.tellAll p o.events
        match o.result with
        | .error f => (p, .error (b.fault name .autofill f))
        | .ok v =>
          match v.bind notNull with
          | some v => autofillAll t ds { p with block := p.block.insert name v }
          | none => autofillAll t ds p

/-- Reworks the values of a block, name by name. -/
def resolveAll (t : Token) (positions : List Position) :
    List (String × Definition) → Progress → Progress × Except CallbackFault Unit
  | [], p => (p, .ok ⟨⟩)
  | (name, d) :: ds, p =>
    match d.resolve, p.block.get? name with
    | some resolve, some v =>
      let o := resolve v
        { name := name, aliases := d.aliases, place := b.placeOf t, parsed := p.block,
          tags := positions }
      let p := b.tellAll p o.events
      match o.result with
      | .error f => (p, .error (b.fault name .resolve f))
      | .ok v =>
        match v.bind notNull with
        | some v => resolveAll t positions ds { p with block := p.block.insert name v }
        | none => resolveAll t positions ds p
    | _, _ => resolveAll t positions ds p

/-- The block of a token, if anything was said or filled in, and the events on the way. -/
def build (t : Token) : List Event × Except CallbackFault (Option Block) :=
  let as := b.tags t
  match b.parseAll t as {} with
  | (p, .error f) => (p.events, .error f)
  | (p, .ok _) =>
    match b.autofillAll t (b.registry.withAutofill b.filetype).entries p with
    | (p, .error f) => (p.events, .error f)
    | (p, .ok _) =>
      if p.block.isEmpty then (p.events, .ok none)
      else
        let positions := as.map fun a => ⟨a.name, a.first, a.last⟩
        match b.resolveAll t positions (b.registry.withResolve b.filetype).entries p with
        | (p, .error f) => (p.events, .error f)
        | (p, .ok _) => (p.events, .ok (some p.block))

/-- The blocks of some tokens, in order, up to the first that fails. -/
def buildAll : List Token → List Event × Except CallbackFault (List Block)
  | [] => ([], .ok [])
  | t :: ts =>
    match b.build t with
    | (es, .error f) => (es, .error f)
    | (es, .ok block) =>
      match buildAll ts with
      | (es', .error f) => (es ++ es', .error f)
      | (es', .ok blocks) => (es ++ es', .ok (block.toList ++ blocks))

end Builder

end DocComments
