/-!
# White space

White space is the Unicode property `White_Space`. Columns are counted in characters: an indent of two
ideographic spaces is an indent of two.

* `isSpace`: the property.
* `isBlank`, `indent`: what a line looks like from the left.
* `trim`, `trimEnd`: a text without the white space around it.
-/

namespace DocComments.Text

/-- The 25 characters with the property `White_Space`. -/
def isSpace (c : Char) : Bool :=
  let n := c.toNat
  (0x9 ≤ n && n ≤ 0xD) || n == 0x20 || n == 0x85 || n == 0xA0 || n == 0x1680 ||
    (0x2000 ≤ n && n ≤ 0x200A) || n == 0x2028 || n == 0x2029 || n == 0x202F || n == 0x205F ||
    n == 0x3000

/-- A text is blank when all of it is white space; the empty text is blank. -/
def isBlank (s : String) : Bool :=
  s.toList.all isSpace

/-- The number of characters of white space that a line starts with. -/
def indent (s : String) : Nat :=
  (s.toList.takeWhile isSpace).length

/-- A list of characters without the white space at its end. -/
def dropSpaceEnd (cs : List Char) : List Char :=
  (cs.reverse.dropWhile isSpace).reverse

def trimEnd (s : String) : String :=
  String.ofList (dropSpaceEnd s.toList)

def trim (s : String) : String :=
  String.ofList (dropSpaceEnd (s.toList.dropWhile isSpace))

/-- Whether a text holds any white space at all. -/
def hasSpace (s : String) : Bool :=
  s.toList.any isSpace

end DocComments.Text
