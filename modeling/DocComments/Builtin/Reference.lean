import DocComments.Text.Cut
import DocComments.Text.Space
import DocComments.Value.Printer

/-!
# References to states

Markup refers to a state by `${@state.id.field}` or `${@state[id][field]}`. The references are cut out of it
together with the white space around them, or filled in with what they stand for.

* `Reference.strip`: a text without its references.
* `Reference.fill`: a text with its references filled in.
* `Reference.interpolate`: what a reference stands for.
-/

namespace DocComments.Builtin.Reference

/-- Whether a character is the given lower-case letter, in either case. The long `ſ` is an `s` too. -/
def isLetter (lower c : Char) : Bool :=
  c = lower || c = lower.toUpper || (lower = 's' && c = 'ſ')

/-- What is left of a text when it starts with a word, in either case. -/
def afterWord? : (w cs : List Char) → Option (List Char)
  | [], cs => some cs
  | _ :: _, [] => none
  | l :: w, c :: cs => if isLetter l c then afterWord? w cs else none

/-- The text up to the next closing brace, and the text behind it. -/
def toBrace? (cs : List Char) : Option (List Char × List Char) :=
  match cs.dropWhile (· ≠ '\x7d') with
  | [] => none
  | _ :: rest => some (cs.takeWhile (· ≠ '\x7d'), rest)

/-- What is left of a text when it starts with a reference to a state, the white space behind it included. -/
def afterReference? (cs : List Char) : Option (List Char) := do
  let cs ← Text.after? ['$', '\x7b', '@'] cs
  let cs ← afterWord? ['s', 't', 'a', 't', 'e'] cs
  let (_, cs) ← toBrace? cs
  return cs.dropWhile Text.isSpace

/-- A text without its references. The first `skip` characters belong to one. White space is held back, the
last character first, until it shows whether a reference follows. -/
def stripFrom : (skip : Nat) → (held : List Char) → List Char → List Char
  | _, held, [] => held.reverse
  | skip + 1, held, _ :: cs => stripFrom skip held cs
  | 0, held, c :: cs =>
    if Text.isSpace c then stripFrom 0 (c :: held) cs
    else
      match afterReference? (c :: cs) with
      | some rest => stripFrom (cs.length - rest.length) [] cs
      | none => held.reverse ++ c :: stripFrom 0 [] cs

/-- A text without its references. -/
def strip (s : String) : String :=
  String.ofList (stripFrom 0 [] s.toList)

/-- The path of a reference at the start of a text, and the text behind it. The first of the names that fits
counts. -/
def path? (names : List String) (cs : List Char) : Option (List Char × List Char) := do
  let cs ← Text.after? ['$', '\x7b', '@'] cs
  names.findSome? fun n => (Text.after? n.toList cs).bind toBrace?

/-- A text with the references to some names replaced, each by what `f` makes of its path. -/
def fillFrom (names : List String) (f : List Char → String) : (skip : Nat) → List Char → List Char
  | _, [] => []
  | skip + 1, _ :: cs => fillFrom names f skip cs
  | 0, c :: cs =>
    match path? names (c :: cs) with
    | some (path, rest) => (f path).toList ++ fillFrom names f (cs.length - rest.length) cs
    | none => c :: fillFrom names f 0 cs

/-- A text with the references to some names replaced. -/
def fill (names : List String) (f : List Char → String) (s : String) : String :=
  String.ofList (fillFrom names f 0 s.toList)

/-- A key without the points and brackets around it. -/
def clean (cs : List Char) : String :=
  String.ofList (cs.filter fun c => c ≠ '[' && c ≠ ']' && c ≠ '.')

/-- Where a path is cut in two: at its first point or bracket, and when it has both, at the later of the two. -/
def cutAt? (path : List Char) : Option Nat :=
  match path.idxOf? '.', path.idxOf? '[' with
  | some i, some j => some (max i j)
  | i, j => i <|> j

/-- A path without the byte that sets it off from the name. A wider character leaves nothing. -/
def pathBody : List Char → List Char
  | [] => []
  | c :: cs => if c.utf8Size = 1 then cs else []

/-- What a path leads to. -/
def lookup? (states : List (String × Value)) (path : List Char) : Option Value :=
  let path := pathBody path
  if path.isEmpty then Entries.find? "state" states
  else
    match cutAt? path with
    | some i => (Entries.find? (clean (path.take i)) states).bind (·.field? (clean (path.drop i)))
    | none => (Entries.find? (clean path) states).map fun v => (v.field? "state").getD v

/-- The text that a path stands for: a text as it is, any other value as JSON. -/
def interpolate (states : List (String × Value)) (path : List Char) : String :=
  match lookup? states path with
  | some (.str s) => s
  | some v => v.compact
  | none => "undefined"

end DocComments.Builtin.Reference
