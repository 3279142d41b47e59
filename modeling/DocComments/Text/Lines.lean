import DocComments.Text.Space

/-!
# Lines

A text is cut into lines at CR LF, CR and LF alike. A run of lines is *normalized* by dropping the blank
lines around it, the indent that its lines share, and the white space at the end of each line.

* `foldBreaks`: every line break becomes LF.
* `lines`: the lines of a text.
* `normalize`: the normal form of a run of lines.
-/

namespace DocComments.Text

/-- Each CR LF becomes one LF. -/
def foldCrLf : List Char → List Char
  | [] => []
  | '\r' :: '\n' :: cs => '\n' :: foldCrLf cs
  | c :: cs => c :: foldCrLf cs

/-- Every line break becomes LF: first each CR LF, then each CR that is left. -/
def foldBreaks (s : String) : String :=
  String.ofList ((foldCrLf s.toList).map fun c => if c = '\r' then '\n' else c)

/-- The lines of a text. There is always one, and a break at the end opens an empty last line. -/
def lines (s : String) : List String :=
  ((foldBreaks s).toList.splitOn '\n').map String.ofList

/-- Lines with LF between them. -/
def unlines : List String → String
  | [] => ""
  | [l] => l
  | l :: ls => l ++ "\n" ++ unlines ls

/-- A run of lines without the blank lines at its two ends. -/
def trimBlankLines (ls : List String) : List String :=
  ((ls.dropWhile isBlank).reverse.dropWhile isBlank).reverse

/-- The indent that all lines of a run share; blank lines do not count. -/
def margin (ls : List String) : Nat :=
  (((ls.filter (! isBlank ·)).map indent).min?).getD 0

/-- A line moved left by `n` columns, without the white space at its end. A blank line becomes empty. -/
def outdent (n : Nat) (l : String) : String :=
  if isBlank l then "" else String.ofList (dropSpaceEnd (l.toList.drop n))

/-- The normal form of a run of lines. -/
def normalize (ls : List String) : List String :=
  let body := trimBlankLines ls
  body.map (outdent (margin body))

/-- The normal form of a text, line by line. -/
def normalizeText (s : String) : String :=
  unlines (normalize (lines s))

/-- The texts that are not blank, one below the other. -/
def joinText (parts : List String) : String :=
  unlines (parts.filter (! isBlank ·))

end DocComments.Text
