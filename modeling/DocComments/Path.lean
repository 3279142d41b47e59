import DocComments.Text.Cut

/-!
# File names

The text of a path has slashes between its components. Empty components and single points name no step, so
`a//./b/` leads to `b` inside `a`. A file name is cut at its last point into stem and extension; a point at
its very start is part of the stem.
-/

namespace DocComments.Path

/-- The steps of a path, without the empty ones and the single points. -/
def components (path : String) : List String :=
  (Text.splitOnChar path '/').filter fun c => c ≠ "" && c ≠ "."

/-- The last step of a path, unless it leads upwards. -/
def fileName? (path : String) : Option String :=
  (components path).getLast?.filter (· ≠ "..")

/-- The two sides of the last point of a name, if there is a point behind its first character. -/
def cutExtension? (name : String) : Option (String × String) :=
  let back := name.toList.reverse
  let stem := ((back.dropWhile (· ≠ '.')).drop 1).reverse
  if stem.isEmpty then none
  else some (String.ofList stem, String.ofList (back.takeWhile (· ≠ '.')).reverse)

/-- The file name without its extension, or nothing when the path names no file. -/
def stem (path : String) : String :=
  match fileName? path with
  | none => ""
  | some name => ((cutExtension? name).map (·.1)).getD name

/-- The extension of the file name, without the point. -/
def extension? (path : String) : Option String :=
  (fileName? path).bind fun name => (cutExtension? name).map (·.2)

/-- The type of a file is its extension, which may be missing. -/
def filetype (path : String) : String :=
  (extension? path).getD ""

end DocComments.Path
