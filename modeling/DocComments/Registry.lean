import DocComments.Callback
import DocComments.Text.Space

/-!
# The registry

The registry holds the definitions of annotations by file type and name. The file type `default` stands for
all files; a definition for another type takes its place in files of that type. No alias is the name of
another annotation for the same files, nor an alias of two.

* `Definition`, `Registration`: what is registered.
* `Registry.register`: registers an annotation, or says why not.
* `Registry.list`, `Registry.get?`, `Registry.canonical?`: what holds for a file type.
-/

namespace DocComments

/-- The file type that stands for all files. -/
def defaultFiletype : String := "default"

/-- An annotation: its aliases, the file types it is for, and its callbacks. -/
structure Definition where
  aliases : List String := []
  filetypes : List String := [defaultFiletype]
  parse : ParseCallback := fun c => .done (.str c.tag.line)
  autofill : Option AutofillCallback := none
  resolve : Option ResolveCallback := none

instance : Inhabited Definition := ⟨{}⟩

/-- What an annotation is registered as. -/
inductive Registration where
  | parse (callback : ParseCallback)
  | aliases (names : List String)
  /-- One definition for each file type. -/
  | filetypes (definitions : Table Definition)
  | definition (d : Definition)

/-- What is wrong with a definition. -/
inductive DefinitionFault where
  | noFiletypes
  | reservedKey (key : String)
  | emptyFiletype
  | badAlias (word : String)
  deriving DecidableEq

def DefinitionFault.reason : DefinitionFault → String
  | .noFiletypes => "no filetypes given"
  | .reservedKey key => "'" ++ key ++ "' is a definition key, not a filetype"
  | .emptyFiletype => "empty filetype"
  | .badAlias word => "invalid alias '" ++ word ++ "'"

/-- What an alias runs into. -/
inductive Collision where
  | isName
  | isAliasOf (other : String)
  | becomesName (name : String)
  deriving DecidableEq

def Collision.reason : Collision → String
  | .isName => "it is already an annotation name"
  | .isAliasOf other => "it is already an alias of '" ++ other ++ "'"
  | .becomesName name => "'" ++ name ++ "' is being registered as an annotation name"

/-- Why an annotation is not registered. -/
inductive RegistryFault where
  | invalidName (name : String)
  | invalidDefinition (name : String) (fault : DefinitionFault)
  | aliasCollision (word name : String) (collision : Collision)
  deriving DecidableEq

def RegistryFault.message : RegistryFault → String
  | .invalidName name => "invalid annotation name '" ++ name ++ "'"
  | .invalidDefinition name f => "invalid config for annotation '" ++ name ++ "': " ++ f.reason
  | .aliasCollision word name c =>
    "'" ++ word ++ "' can't be an alias of '" ++ name ++ "': " ++ c.reason

/-- The definitions by file type and name. -/
structure Registry where
  tables : Table (Table Definition) := ∅

instance : Inhabited Registry := ⟨{}⟩

namespace Registry

/-- A name or alias is a word: not empty and without white space. -/
def isWord (s : String) : Bool :=
  ! s.isEmpty && ! Text.hasSpace s

/-- Keys that would be mistaken for a part of a definition. -/
def reservedKeys : List String := ["alias", "filetypes", "parse", "autofill", "resolve"]

/-- A list without the items that repeat the one before them. -/
def dropRepeats : List String → List String
  | [] => []
  | [a] => [a]
  | a :: b :: l => if a = b then dropRepeats (b :: l) else a :: dropRepeats (b :: l)

/-- A definition with its gaps filled: without file types it is for all files, and a name is no alias of
itself. -/
def tidy (name : String) (d : Definition) : Definition :=
  { d with
    filetypes := if d.filetypes.isEmpty then [defaultFiletype] else d.filetypes
    aliases := dropRepeats (d.aliases.filter (· ≠ name)) }

/-- What is wrong with a definition by itself. -/
def definitionFault? (d : Definition) : Option DefinitionFault :=
  if d.filetypes.any Text.isBlank then some .emptyFiletype
  else (d.aliases.find? (! isWord ·)).map .badAlias

/-- What a name and its aliases run into at another annotation. -/
def collisionWith? (name : String) (aliases : List String) (other : String) (d : Definition) :
    Option RegistryFault :=
  if aliases.contains other then some (.aliasCollision other name .isName)
  else
    match aliases.find? d.aliases.contains with
    | some a => some (.aliasCollision a name (.isAliasOf other))
    | none =>
      if d.aliases.contains name then some (.aliasCollision name other (.becomesName name)) else none

/-- Whether the tables of two file types are about common files. -/
def shareFiles (f g : String) : Bool :=
  f = defaultFiletype || g = defaultFiletype || g = f

/-- What a name and its aliases run into in the tables that share files with a type. -/
def collision? (r : Registry) (filetype name : String) (aliases : List String) : Option RegistryFault :=
  (r.tables.entries.filter fun e => shareFiles filetype e.1).findSome? fun (_, table) =>
    (table.entries.filter fun e => e.1 ≠ name).findSome? fun (other, d) => collisionWith? name aliases other d

/-- Puts a definition into the table of one file type. -/
def put (r : Registry) (filetype name : String) (d : Definition) : Registry :=
  ⟨r.tables.insert filetype (((r.tables.get? filetype).getD ∅).insert name d)⟩

/-- Registers a definition for its file types. Either all of them get it or none does. -/
def define (r : Registry) (name : String) (d : Definition) : Except RegistryFault Registry :=
  match definitionFault? d with
  | some f => .error (.invalidDefinition name f)
  | none =>
    let d := tidy name d
    match d.filetypes.findSome? fun f => r.collision? f name d.aliases with
    | some f => .error f
    | none => .ok (d.filetypes.foldl (fun r f => r.put f name d) r)

/-- Registers one definition after the other, each for its file type, up to the first that fails. -/
def defineEach (r : Registry) (name : String) : List (String × Definition) → Registry × Option RegistryFault
  | [] => (r, none)
  | (filetype, d) :: ds =>
    match r.define name { d with filetypes := [filetype] } with
    | .ok r => defineEach r name ds
    | .error f => (r, some f)

/-- Registers an annotation, in place of one with its name. Gives back the registry as it is then, and what
went wrong. -/
def register (r : Registry) (name : String) (reg : Registration) : Registry × Option RegistryFault :=
  let define (d : Definition) : Registry × Option RegistryFault :=
    match r.define name d with
    | .ok r => (r, none)
    | .error f => (r, some f)
  if ! isWord name then (r, some (.invalidName name))
  else
    match reg with
    | .parse callback => define { parse := callback }
    | .aliases names => define { aliases := names }
    | .definition d => define d
    | .filetypes ds =>
      if ds.isEmpty then (r, some (.invalidDefinition name .noFiletypes))
      else
        match ds.keys.find? reservedKeys.contains with
        | some key => (r, some (.invalidDefinition name (.reservedKey key)))
        | none => r.defineEach name ds.entries

/-- Registers annotations one after the other, up to the first that fails. -/
def registerAll (r : Registry) : List (String × Registration) → Registry × Option RegistryFault
  | [] => (r, none)
  | (name, reg) :: rest =>
    match r.register name reg with
    | (r, none) => registerAll r rest
    | (r, some f) => (r, some f)

variable (r : Registry) (filetype : String)

/-- The definitions that hold for a file type: its own, and else those for all files. -/
def list : Table Definition :=
  ((r.tables.get? defaultFiletype).getD ∅).union ((r.tables.get? filetype).getD ∅)

def names : List String := (r.list filetype).keys

/-- The definitions with aliases. -/
def withAlias : Table Definition := (r.list filetype).filter fun _ d => ! d.aliases.isEmpty

def withAutofill : Table Definition := (r.list filetype).filter fun _ d => d.autofill.isSome

def withResolve : Table Definition := (r.list filetype).filter fun _ d => d.resolve.isSome

/-- The aliases of each name that has any. -/
def aliases : Table (List String) := (r.withAlias filetype).map fun _ d => d.aliases

/-- The name that each alias stands for. An alias that is a name itself is left out. -/
def aliasMap : Table String :=
  let all := r.list filetype
  .ofList (all.entries.flatMap fun (name, d) => (d.aliases.filter (! all.contains ·)).map (·, name))

/-- The definition for all files. -/
def getDefault? (name : String) : Option Definition :=
  (r.tables.get? defaultFiletype).bind (·.get? name)

/-- The definition for exactly one file type. -/
def getOwn? (name : String) : Option Definition :=
  if filetype = defaultFiletype then none else (r.tables.get? filetype).bind (·.get? name)

/-- The definition that holds for a file type. -/
def get? (name : String) : Option Definition :=
  r.getOwn? filetype name <|> r.getDefault? name

/-- The name that a name or alias stands for. -/
def canonical? (word : String) : Option String :=
  if (r.get? filetype word).isSome then some word else (r.aliasMap filetype).get? word

/-- What a listing says about an annotation. -/
structure Summary where
  name : String
  aliases : List String
  autofill : Bool
  resolve : Bool
  /-- Whether the definition is for this file type alone. -/
  overridden : Bool

def Summary.toValue (s : Summary) : Value :=
  .obj [("name", .str s.name), ("alias", .ofStrings s.aliases), ("autofill", .bool s.autofill),
    ("resolve", .bool s.resolve), ("overridden", .bool s.overridden)]

/-- The annotations for a file type. -/
def summary : List Summary :=
  (r.list filetype).entries.map fun (name, d) =>
    { name := name
      aliases := d.aliases
      autofill := d.autofill.isSome
      resolve := d.resolve.isSome
      overridden := (r.getOwn? filetype name).isSome }

/-- The file types with a table of their own. -/
def filetypes : List String := r.tables.keys

/-- The number of definitions in all tables. -/
def size : Nat := (r.tables.values.map Table.size).foldl (· + ·) 0

end Registry

end DocComments
