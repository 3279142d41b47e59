import DocComments.Builtin.Fields
import DocComments.Builtin.Reference
import DocComments.Registry
import DocComments.Text.Html

/-!
# Markup and states

A markup annotation holds code to be shown, with references to states in it. A states annotation lists states
and is linked to a markup of its block: to the one that it names, or to the next one below it.

* `markup`: the markup annotation; markups without an id get their index.
* `states`: the states annotation.
* `linkStates`: the states of a block by markup.
-/

namespace DocComments.Builtin

/-- A setting of a markup: `key=value`, or a key alone. -/
def setting (s : String) : String × Value :=
  match Text.cut? ['='] s.toList with
  | some (key, value) =>
    (Text.trim (String.ofList key), .str (Text.trim (String.ofList value)))
  | none => (s, .null)

def parseMarkup (c : ParseContext) : Value :=
  let h := HeadLine.read .markup c.tag.line
  let raw := c.tag.body
  let escaped := Text.escapeHtml raw
  record
    [("id", .ofOption h.id),
     ("language", .str (h.types.getD c.place.file.filetype)),
     ("settings", .object ((entries h.value).map setting)),
     ("description", .str (h.description.getD "")),
     ("raw_stateless", .str (Reference.strip raw)),
     ("escaped_stateless", .str (Reference.strip escaped)),
     ("raw", .str raw),
     ("escaped", .str escaped)]

/-- A markup without an id gets its index as one. -/
def numberMarkup (i : Nat) (item : Value) : Value :=
  match item.field? "id" with
  | some .null => item.setField "id" (.str (toString i))
  | _ => item

def markup : Definition where
  aliases := ["code", "example", "output", "outputs"]
  parse c := .done (parseMarkup c)
  resolve := some fun v _ => .ok (v.items?.map fun items => .arr (items.mapIdx numberMarkup))

/-- A state: what it is called, and its fields. A state without an id gets its index as one. -/
def stateEntry (i : Nat) (line : String) : String × Value :=
  let h := HeadLine.read .state line
  (h.value.getD (toString i),
   .object [("state", .str (h.types.getD "")), ("description", .str (h.description.getD ""))])

/-- The lines that hold a state: the rest of the head line, and the lines below it. -/
def stateLines (h : HeadLine) (a : Tag) : List String :=
  (h.rest.toList ++ a.contents).filter (! Text.isBlank ·)

def parseStates (c : ParseContext) : Value :=
  let h := HeadLine.read .states c.tag.line
  record
    [("markup_id", .ofOption h.id),
     ("state", .object ((stateLines h c.tag).mapIdx stateEntry))]

/-- Why some states have no markup. -/
inductive LinkFault where
  | noMarkup
  | noId (id : String)
  | noneBelow (line : Nat)

def LinkFault.message : LinkFault → String
  | .noMarkup => "There's no instance of a '@markup' annotation"
  | .noId id => "There's no instance of a '@markup' annotation with an id of " ++ id
  | .noneBelow n => "There's no instance of a '@markup' annotation after line " ++ toString n

/-- The markup that the states at index `k` belong to: the one with the wanted id, or else the one of the
first markup annotation below. -/
def findMarkup (c : ResolveContext) (k : Nat) (wanted : Option String) : Except LinkFault Value :=
  match (c.parsed.get? "markup").bind Value.items?, wanted with
  | none, _ => .error .noMarkup
  | some markups, some id =>
    match markups.find? fun m => (m.field? "id").bind Value.str? == some id with
    | some m => .ok m
    | none => .error (.noId id)
  | some markups, none =>
    let line := (((c.positions c.name)[k]?).bind (·.first)).getD 0
    let index := (c.positions "markup").findIdx? fun p => p.first.any (line < ·)
    match index.bind (markups[·]?) with
    | some m => .ok m
    | none => .error (.noneBelow line)

/-- What references in a markup can lead to: the states, and the fields of the first of them. -/
def stateFields (state : Value) : List (String × Value) :=
  let states := state.fields?.getD []
  match (states.head?).bind (·.2.fields?) with
  | some first => first.foldl (fun es (k, v) => Entries.insert k v es) states
  | none => states

/-- A text field with its references filled in. -/
def fillField (names : List String) (states : List (String × Value)) (m : Value) (k : String) : Value :=
  match (m.field? k).bind Value.str? with
  | some s => m.setField k (.str (Reference.fill names (Reference.interpolate states) s))
  | none => m

/-- A markup with its references filled in from some states. -/
def linkMarkup (c : ResolveContext) (state m : Value) : Value :=
  let m := (m.dropField "raw_stateless").dropField "escaped_stateless"
  ["raw", "escaped"].foldl (fillField (c.name :: c.aliases) (stateFields state)) m

/-- The states of one annotation with their markup: the id that they are kept under, the entry, and what went
wrong. -/
def linkEntry (c : ResolveContext) (k : Nat) (item : Value) : String × Value × Option LinkFault :=
  let state := (item.field? "state").getD (.obj [])
  let wanted := (item.field? "markup_id").bind Value.str?
  let entry (m : Value) : Value := .object [("state", state), ("markup", m)]
  match findMarkup c k wanted with
  | .ok m =>
    let id := ((m.field? "id").bind Value.str?) <|> wanted
    (id.getD "undefined", entry (linkMarkup c state m), none)
  | .error f => (wanted.getD "undefined", entry (.obj []), some f)

/-- Entries of one id, in order. -/
def groupById (es : List (String × Value)) : Table (List Value) :=
  es.foldl (fun t (id, e) => t.insert id ((t.get? id).getD [] ++ [e])) ∅

/-- The states of a block by the id of their markup. -/
def linkStates (v : Value) (c : ResolveContext) : Outcome (Option Value) :=
  match v.items? with
  | none => .ok none
  | some items =>
    let linked := items.mapIdx (linkEntry c)
    { events := linked.filterMap fun (_, _, f) => f.map fun f => .errorIn c.place.file.path f.message
      result := .ok (some (.ofTable
        ((groupById (linked.map fun (id, e, _) => (id, e))).map fun _ es => .arr es))) }

def states : Definition where
  aliases := ["state"]
  parse c := .done (parseStates c)
  resolve := some linkStates

end DocComments.Builtin
