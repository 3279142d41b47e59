import DocComments.Text.Space

/-!
# Head lines

The head line of an annotation has a loose form, `(id) {types} name [value] - description`, of which every
part may be missing. Each annotation reads the parts that it knows, from left to right. A bracketed part
reaches to the last closing bracket on the line, and a part that is empty counts as missing.

* `HeadLine.Part`, `HeadLine.Pattern`: what is read, in which order.
* `HeadLine.read`: the parts of a text.
-/

namespace DocComments

/-- The parts that were found on a head line. -/
structure HeadLine where
  id : Option String := none
  types : Option String := none
  name : Option String := none
  value : Option String := none
  description : Option String := none
  /-- Everything up to the end of the line. -/
  rest : Option String := none
  deriving DecidableEq, Inhabited

namespace HeadLine

inductive Part where
  | space
  | id
  | types
  | name
  | value
  | description
  | rest
  deriving DecidableEq

abbrev Pattern := List Part

/-- The pattern `{types} name [value] - description`. -/
def Pattern.argument : Pattern := [.types, .space, .name, .space, .value, .space, .description]

/-- The pattern `{types} - description`. -/
def Pattern.typed : Pattern := [.types, .space, .description]

/-- The pattern `(id) {language} [settings] - description`. -/
def Pattern.markup : Pattern := [.id, .space, .types, .space, .value, .space, .description]

/-- The pattern `{types} name - description`. -/
def Pattern.required : Pattern := [.types, .space, .name, .description]

/-- The pattern `(id) rest`. -/
def Pattern.states : Pattern := [.id, .space, .rest]

/-- The pattern `{state} [id] - description`. -/
def Pattern.state : Pattern := [.types, .space, .value, .space, .description]

/-- A part that is not empty. -/
def found (cs : List Char) : Option String :=
  if cs.isEmpty then none else some (String.ofList cs)

/-- The text between an opening bracket at the start and the last closing bracket on the line, and what comes
behind that. -/
def enclosed? (o c : Char) : List Char → Option (List Char × List Char)
  | [] => none
  | x :: cs =>
    if x = o then
      let line := cs.takeWhile (· ≠ '\n')
      let inner := ((line.reverse.dropWhile (· ≠ c)).drop 1).reverse
      if line.contains c then some (inner, cs.drop (inner.length + 1)) else none
    else none

/-- A text behind the blanks and the dash that set a description off. A dash counts only before a blank. -/
def afterDash (cs : List Char) : List Char :=
  match cs.dropWhile Text.isSpace with
  | '-' :: c :: rest => if Text.isSpace c then rest.dropWhile Text.isSpace else '-' :: c :: rest
  | rest => rest

/-- Reads one part, and gives back the text behind it. -/
def readPart (h : HeadLine) (cs : List Char) : Part → HeadLine × List Char
  | .space => (h, cs.dropWhile Text.isSpace)
  | .id =>
    match enclosed? '(' ')' cs with
    | some (s, rest) => ({ h with id := found s }, rest)
    | none => (h, cs)
  | .types =>
    match enclosed? '\x7b' '\x7d' cs with
    | some (s, rest) => ({ h with types := found s }, rest)
    | none => (h, cs)
  | .value =>
    match enclosed? '[' ']' cs with
    | some (s, rest) => ({ h with value := found s }, rest)
    | none => (h, cs)
  | .name =>
    ({ h with name := found (cs.takeWhile (! Text.isSpace ·)) }, cs.dropWhile (! Text.isSpace ·))
  | .description =>
    let cs := afterDash cs
    ({ h with description := found (cs.takeWhile (· ≠ '\n')) }, cs.dropWhile (· ≠ '\n'))
  | .rest => ({ h with rest := found (cs.takeWhile (· ≠ '\n')) }, cs.dropWhile (· ≠ '\n'))

/-- The parts of a text. -/
def read (p : Pattern) (line : String) : HeadLine :=
  (p.foldl (fun (h, cs) part => readPart h cs part) (({} : HeadLine), line.toList)).1

/-- What a pattern found, in its order. -/
def parts (h : HeadLine) (p : Pattern) : List (Option String) :=
  p.filterMap fun
    | .space => none
    | .id => some h.id
    | .types => some h.types
    | .name => some h.name
    | .value => some h.value
    | .description => some h.description
    | .rest => some h.rest

end HeadLine

end DocComments
