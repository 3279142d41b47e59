import DocComments.Tag
import DocComments.Table
import DocComments.Text.Cut

/-!
# The annotations of a comment

A line of a comment is a head when the sigil stands on it, directly followed by a known name. A backslash
before the sigil takes its meaning away, and so does a comment marker before it, which quotes another comment.
Lines before the first head belong to no annotation.

* `Splitter.head?`: the name and the rest of a head.
* `Splitter.split`: the annotations of a comment.
-/

namespace DocComments

/-- What tells the heads of a comment from its other lines. -/
structure Splitter where
  sigil : String
  names : List String
  /-- The aliases that each annotation carries along. -/
  aliases : Table (List String) := ∅
  /-- The comment markers that quote another comment. -/
  quoted : List String := []

namespace Splitter

variable (s : Splitter)

/-- Whether a line quotes another comment: a marker, a blank and the sigil. -/
def quotes (line : String) : Bool :=
  s.quoted.any fun m => ! m.isEmpty && Text.contains line (m ++ " " ++ s.sigil)

/-- The name on a head line and the text behind it. Only the first place of the sigil counts. -/
def head? (line : String) : Option (String × String) :=
  if s.sigil.isEmpty || s.quotes line then none
  else
    match Text.cut? s.sigil.toList line.toList with
    | none => none
    | some (before, rest) =>
      if before.getLast? = some '\\' then none
      else
        let name := String.ofList (rest.takeWhile (! Text.isSpace ·))
        if s.names.contains name then some (name, String.ofList (rest.dropWhile (! Text.isSpace ·)))
        else none

/-- The lines before the first head, and the annotations from there on; the first line has the index `i`. -/
def sections (i : Nat) : List String → List String × List Tag
  | [] => ([], [])
  | l :: ls =>
    let (before, rest) := sections (i + 1) ls
    match s.head? l with
    | none => (l :: before, rest)
    | some (name, line) =>
      ([], { name := name
             aliases := (s.aliases.get? name).getD []
             line := line
             contents := l :: before
             first := some i
             last := some (i + before.length) } :: rest)

/-- The annotations of a comment, in order. -/
def split (lines : List String) : List Tag :=
  (s.sections 0 lines).2

end Splitter

end DocComments
