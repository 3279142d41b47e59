import DocComments.Text.Lines

/-!
# Annotations

An annotation is a named part of a comment, such as `@arg`. Its head line holds the name and the rest of that
line; the lines below belong to it up to the next head line.

* `Tag.ofText`: an annotation made from free text.
* `Tag.prepare`: the form that callbacks see.
-/

namespace DocComments

structure Tag where
  name : String
  aliases : List String := []
  /-- The head line behind the name. -/
  line : String
  contents : List String
  /-- The indices of the first and last line inside the comment; an annotation made from text has none. -/
  first : Option Nat := none
  last : Option Nat := none
  deriving DecidableEq, Inhabited

namespace Tag

/-- An annotation made from free text, whose first line is the head line. -/
def ofText (name : String) (aliases : List String) (text : String) : Tag :=
  let contents := Text.normalize (Text.lines text)
  { name := name, aliases := aliases, line := contents.head?.getD "", contents := contents }

/-- The annotation without its head line in the contents, both of them normalized. -/
def prepare (a : Tag) : Tag :=
  { a with
    contents := Text.normalize (a.contents.drop 1)
    line := Text.normalizeText a.line }

/-- The contents as one text. -/
def body (a : Tag) : String :=
  Text.unlines a.contents

end Tag

end DocComments
