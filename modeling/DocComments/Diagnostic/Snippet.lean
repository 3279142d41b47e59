import DocComments.Token

/-!
# Snippets

A snippet shows the lines around an annotation, and below its lines what they should have been. Each row has
the number of its line, counted from 1 and aligned to the right.

* `Snippet`: what is shown.
* `Snippet.window`: the rows that are shown.
* `Snippet.render`: the text.
-/

namespace DocComments

/-- How parts of a snippet are set off on a terminal. -/
structure Paint where
  bold : String → String
  red : String → String
  green : String → String

namespace Paint

def plain : Paint := ⟨id, id, id⟩

/-- A text between the terminal codes that set a style and end it. -/
def ansi (code : String) (s : String) : String :=
  "\x1b[" ++ code ++ "m" ++ s ++ "\x1b[0m"

def colors : Paint := ⟨ansi "1", ansi "31", ansi "32"⟩

end Paint

structure Snippet where
  path : String
  /-- The comment marker before the lines of the comment. -/
  marker : String
  comment : Span
  code : Span
  /-- The first and last line of the annotation, as indices into the comment. -/
  first : Nat
  last : Nat
  /-- What the lines of the annotation should have been. -/
  expected : List String

namespace Snippet

/-- A line of the comment or of the code. -/
structure Row where
  number : Nat
  text : String

variable (s : Snippet)

/-- The rows of a span, with `show` applied to their text. -/
def spanRows (span : Span) (f : String → String) : List Row :=
  span.contents.mapIdx fun i l => ⟨(span.lineNumber? i).getD i + 1, f l⟩

/-- A line of the comment, as it is shown. -/
def marked (l : String) : String :=
  s.marker ++ " " ++ l

/-- The lines of the comment, then those of the code. -/
def rows : List Row :=
  spanRows s.comment s.marked ++ spanRows s.code id

/-- The width of the longest number. -/
def width : Nat :=
  ((s.rows.map fun r => (toString r.number).length).max?).getD 1

/-- How many rows are shown on each side of the annotation. The sums here and in `window` are of indices of lines, which
stay far below `2 ^ 64`, so words of the machine would hold them. -/
def context : Nat :=
  (11 + (s.last - s.first)) / 2

/-- The rows that are shown, with their indices. -/
def window : List (Nat × Row) :=
  ((s.rows.mapIdx fun i r => (i, r)).take (s.last + s.context + 1)).drop (s.first - s.context)

/-- What the row at index `i` should have been. -/
def wanted? (i : Nat) : Option String :=
  if s.first ≤ i ∧ i ≤ s.last then s.expected[i - s.first]? else none

/-- The number of a row, aligned to the right. -/
def numberOf (width : Nat) (r : Row) : String :=
  let n := toString r.number
  String.ofList (List.replicate (width - n.length) ' ') ++ n

variable (p : Paint) (width : Nat)

def plainRow (r : Row) : String :=
  "    " ++ numberOf width r ++ " | " ++ r.text

def actualRow (r : Row) : String :=
  "  " ++ p.red "-" ++ " " ++ p.red (numberOf width r) ++ " | " ++ r.text

def expectedRow (r : Row) (wanted : String) : String :=
  "  " ++ p.green "+" ++ " " ++ p.green (numberOf width r) ++ " | " ++ s.marked wanted

/-- The rows of the window, with numbers of some width. What rows should have been is held back until the last
of them is shown. -/
def body : (pending : List String) → List (Nat × Row) → List String
  | pending, [] => pending
  | pending, (i, r) :: rest =>
    match s.wanted? i with
    | some w =>
      let pending := pending ++ [s.expectedRow p width r w]
      actualRow p width r :: if i = s.last then pending ++ body [] rest else body pending rest
    | none => pending ++ plainRow width r :: body [] rest

/-- All lines of the snippet. -/
def lines : List String :=
  ["", "    " ++ p.bold s.path, "    " ++ p.green "+ expected" ++ " " ++ p.red "- actual", ""] ++
    s.body p s.width [] s.window ++ [""]

def render : String :=
  Text.unlines (s.lines p)

end Snippet

end DocComments
