import DocComments.Builtin.Fields
import DocComments.Registry

/-!
# Descriptive annotations

Names, descriptions, authorship, access and versions.
-/

namespace DocComments.Builtin

/-- The access `private` or `protected`; everything else, and no annotation at all, is `public`. -/
def access : Definition where
  parse c :=
    let line := c.tag.line
    .done (.str (if line = "private" || line = "protected" then line else "public"))
  autofill := some fun _ => .ok (some (.str "public"))

def author : Definition where
  aliases := ["authors"]
  parse c := .done (.ofStrings (allEntries c.tag))

/-- A flag, or the list of what can be chained. -/
def chainable : Definition where
  aliases := ["chain"]
  parse c := .done
    (match flag? c.tag with
    | some b => .bool b
    | none => .ofStrings (allEntries c.tag))

/-- A version in braces and a description. -/
def versioned (missing : String) (c : ParseContext) : Value :=
  let h := HeadLine.read .typed c.tag.line
  .object
    [("version", .str (h.types.getD missing)),
     ("description", .str (description h.description c.tag))]

def deprecated : Definition where
  parse c := .done (versioned "0" c)

def descriptionTag : Definition where
  aliases := ["desc", "definition", "explanation", "writeup", "summary", "summarization"]
  parse c := .done (.str (description (some c.tag.line) c.tag))

/-- The head line as it is. -/
def name : Definition where
  aliases := ["title", "heading", "header"]

def note : Definition where
  aliases := ["notes"]
  parse c :=
    let h := HeadLine.read .typed c.tag.line
    .done (record
      [("importance", .str (h.types.getD "0")),
       ("description", .str (description h.description c.tag))])

def since : Definition where
  parse c := .done (versioned "undefined" c)

/-- A task: its importance in braces, who it is for in brackets, and a description. -/
def todo : Definition where
  parse c :=
    let h := HeadLine.read .state c.tag.line
    .done (record
      [("importance", .str (h.types.getD "0")),
       ("assignees", .ofStrings (entries h.value)),
       ("description", .str (description h.description c.tag))])

/-- An annotation with a part in braces that it should not lack; the part has the annotation's own name. -/
def braced (name : String) (c : ParseContext) : Script Value :=
  let h := HeadLine.read .typed c.tag.line
  let value (part : String) : Script Value := .done (.object
    [(name, .str part), ("description", .str (description h.description c.tag))])
  match h.types with
  | some part => value part
  | none =>
    let expected := "@" ++ name ++ " \x7b" ++ name ++ "\x7d" ++
      (match h.description with
      | some d => " - " ++ d
      | none => "")
    .emit (c.warning ("You didn't pass in a " ++ name ++ " to @" ++ name) [expected]) (value "undefined")

def type : Definition where
  parse := braced "type"

def version : Definition where
  parse := braced "version"

end DocComments.Builtin
