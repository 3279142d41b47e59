import DocComments.Style
import DocComments.Value

/-!
# Configuration

What a user can set, and what holds otherwise. Keys that have no meaning are kept as they are.
-/

namespace DocComments

structure Config where
  /-- The number of blank lines in a row that ends the code below a comment. -/
  blankLines : Nat := 4
  /-- How deep callbacks may add annotations. -/
  maxAddDepth : Nat := 8
  /-- Whether warnings are told. -/
  warnings : Bool := true
  /-- Comment styles, laid over the built-in ones. -/
  styles : Table Style := ∅
  /-- Keys without a meaning. -/
  unknown : Table Value := ∅

instance : Inhabited Config := ⟨{}⟩

end DocComments
