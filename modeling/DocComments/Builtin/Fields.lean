import DocComments.Tag
import DocComments.HeadLine
import DocComments.Text.Cut
import DocComments.Value

/-!
# What annotations are made of

The built-in annotations share the ways in which they read lists, flags and descriptions.
-/

namespace DocComments.Builtin

/-- Entries with commas between them, trimmed, without the empty ones. -/
def commaList (s : String) : List String :=
  ((Text.splitOnChar s ',').map Text.trim).filter (! ·.isEmpty)

/-- The entries of a part that may be missing. -/
def entries (part : Option String) : List String :=
  commaList (part.getD "")

/-- The entries of the head line and of the lines below it. -/
def allEntries (a : Tag) : List String :=
  (a.line :: a.contents).flatMap commaList

/-- An annotation of one line that is a flag: `false`, or `true`, which may be left out. -/
def flag? (a : Tag) : Option Bool :=
  if ! a.contents.isEmpty then none
  else if a.line = "false" then some false
  else if a.line = "" || a.line = "true" then some true
  else none

/-- The description on the head line, continued by the lines below it. -/
def description (head : Option String) (a : Tag) : String :=
  Text.joinText (head.toList ++ a.contents)

/-- The fields of an annotation that may stand several times: a list of one object, so that all of them join
into one list. -/
def record (fields : List (String × Value)) : Value :=
  .arr [.object fields]

end DocComments.Builtin
