import DocComments.Builtin.Fields
import DocComments.Registry

/-!
# Signature annotations

What a documented item takes, needs, gives back and throws.
-/

namespace DocComments.Builtin

/-- A typed name with a value in brackets and a description. -/
def typedName (c : ParseContext) : Value :=
  let h := HeadLine.read .argument c.tag.line
  record
    [("types", .ofStrings (entries h.types)),
     ("name", .str (h.name.getD "")),
     ("value", .str (h.value.getD "")),
     ("description", .str (description h.description c.tag))]

def arg : Definition where
  aliases := ["argument", "param", "parameter"]
  parse c := .done (typedName c)

def property : Definition where
  aliases := ["prop", "key"]
  parse c := .done (typedName c)

def requires : Definition where
  aliases := ["require"]
  parse c :=
    let h := HeadLine.read .required c.tag.line
    .done (record
      [("types", .ofStrings (entries h.types)),
       ("name", .str (h.name.getD "")),
       ("description", .str (description h.description c.tag))])

/-- The types and description of a result; a missing type is written `undefined`. -/
def returns : Definition where
  aliases := ["return"]
  parse c :=
    let h := HeadLine.read .typed c.tag.line
    .done (.object
      [("types", .ofStrings (commaList (h.types.getD "undefined"))),
       ("description", .str (description h.description c.tag))])

def throws : Definition where
  aliases := ["throw", "exception", "error", "catch"]
  parse c :=
    let h := HeadLine.read .typed c.tag.line
    .done (record
      [("types", .ofStrings (entries h.types)),
       ("description", .str (description h.description c.tag))])

end DocComments.Builtin
