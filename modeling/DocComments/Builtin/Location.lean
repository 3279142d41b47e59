import DocComments.Registry
import DocComments.Text.Html

/-!
# Location annotations

Where a block stands in its file, and the code that it documents.
-/

namespace DocComments.Builtin

/-- A line number; −1 when there is none. -/
def lineNumber : Option Nat → Value
  | some n => .ofNat n
  | none => .int (-1)

/-- The bounds of a span. -/
def bounds (s : Span) : List (String × Value) :=
  [("start", lineNumber s.first), ("end", lineNumber s.last)]

/-- Where a block stands. -/
def blockInfo (p : Place) : Value :=
  .object
    [("comment", .object (bounds p.comment ++ [("type", .str p.kind.name)])),
     ("code", .object (bounds p.code)),
     ("file", .object
       [("path", .str p.file.path), ("start", .ofNat p.file.first), ("end", .ofNat p.file.last)])]

/-- Filled in for every block; written out it has no meaning. -/
def blockinfo : Definition where
  parse c :=
    .emit (c.warning "Passed @blockinfo, it's only supposed to be an autofilled annotation" []) (.done .null)
  autofill := some fun c => .ok (some (blockInfo c.place))

/-- The code below the comment, as it is and as it is written inside HTML. -/
def rawCode : Definition where
  parse c :=
    let raw := Text.unlines c.place.code.contents
    .done (.object [("raw", .str raw), ("escaped", .str (Text.escapeHtml raw))])

end DocComments.Builtin
