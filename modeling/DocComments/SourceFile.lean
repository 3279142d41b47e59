import DocComments.Language
import DocComments.Path
import DocComments.Text.Cut

/-!
# Source files

A source file is what callbacks know of the file they work for.
-/

namespace DocComments

structure SourceFile where
  path : String
  contents : String
  language : Language
  deriving DecidableEq, Inhabited

namespace SourceFile

variable (f : SourceFile)

/-- The file name without its extension. -/
def name : String := Path.stem f.path

def filetype : String := Path.filetype f.path

/-- The lines of the contents, whose breaks are all LF. -/
def lines : List String := Text.splitOnChar f.contents '\n'

/-- The index of the first line. -/
def first (_ : SourceFile) : Nat := 0

/-- The index of the last line. -/
def last : Nat := f.contents.toList.count '\n'

end SourceFile

end DocComments
