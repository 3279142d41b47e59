import DocComments.Yaml.NodeTag
import DocComments.Yaml.Scalar

/-!
# Tokens of a YAML text

A text is cut into tokens: marks, scalars, and where the indent says so the start and the end of a block.

* `Yaml.Token`: a token.
-/

namespace DocComments.Yaml

inductive Token where
  | streamEnd
  /-- A directive with the version of the format. -/
  | version (major minor : Nat)
  /-- A directive that gives a handle of tags a meaning. -/
  | handle (name : String) (meaning : NodeTag)
  | documentStart
  | documentEnd
  | blockListStart
  | blockMapStart
  | blockEnd
  | flowListStart
  | flowListEnd
  | flowMapStart
  | flowMapEnd
  /-- The dash before an item of a list. -/
  | item
  /-- The comma between brackets. -/
  | comma
  | key
  | value
  /-- The number of the node that follows. -/
  | anchor (number : Nat)
  /-- A node by its number. -/
  | reference (number : Nat)
  /-- A tag and the handle before it; a tag that is written as it is has the empty one. -/
  | tag (handle : String) (suffix : NodeTag)
  | scalar (text : String) (style : Style)
  deriving DecidableEq

end DocComments.Yaml
