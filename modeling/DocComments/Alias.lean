import DocComments.Language
import DocComments.Table
import DocComments.Text.Cut
import DocComments.Text.Space
import DocComments.Text.Word

/-!
# Renaming aliases

An annotation may be written under an alias. Before a file is read, each alias that introduces an annotation
is renamed to the name it stands for. It does so where the sigil comes first on a line, possibly behind a
comment marker, or where it comes behind the inline sigil and white space. White space may run over line
breaks. The alias has to end at a word boundary.

Where several readings of one place are possible, the first of these orders decides: the start of a line
before the inline sigil, a marker before none, more white space before less, longer words before shorter
ones.

* `Renamer`: the words that play a part.
* `Renamer.readings`: what can be read at each place, found in one pass from the end of the text.
* `Renamer.match?`: the alias that one place leads to.
* `Renamer.pieces`: a text cut into what stays and what is renamed.
* `Renamer.rename`: the text with its aliases renamed.
-/

namespace DocComments

/-- A place in a text: the character before it and the text behind it. -/
structure Cursor where
  before : Option Char
  rest : List Char

namespace Cursor

/-- The place behind a word that stands at the cursor. -/
def skip? (w : List Char) (c : Cursor) : Option Cursor :=
  (Text.after? w c.rest).map fun rest => ⟨w.getLast? <|> c.before, rest⟩

def atLineStart (c : Cursor) : Bool :=
  c.before.all (· == '\n')

def atBoundary (c : Cursor) : Bool :=
  Text.isBoundary c.before c.rest.head?

end Cursor

/-- The words that renaming looks for, and what each alias stands for. -/
structure Renamer where
  markers : List (List Char)
  sigils : List (List Char)
  inlineSigils : List (List Char)
  names : List (List Char)
  aliases : Table String

namespace Renamer

/-- Longer words first, those of one length by code point. -/
def byLength (ws : List String) : List (List Char) :=
  let unique := (Table.ofList ((ws.filter (! ·.isEmpty)).map (·, ()))).keys
  (unique.mergeSort fun a b => b.utf8ByteSize ≤ a.utf8ByteSize).map String.toList

/-- The renamer of a language. -/
def ofLanguage (l : Language) (aliases : Table String) : Renamer where
  markers := byLength ([l.header, l.body].flatMap fun g => [g.opening, g.single].filterMap id)
  sigils := byLength [l.header.sigil, l.body.sigil]
  inlineSigils := byLength ([l.header, l.body].filterMap (·.inlineSigil))
  names := byLength aliases.keys
  aliases := aliases

variable (r : Renamer)

/-- An alias that was found: the text that leads to it, and the alias. -/
structure Match where
  lead : List Char
  word : List Char

/-- The number of characters that a match covers. -/
def Match.length (m : Match) : Nat :=
  m.lead.length + m.word.length

/-- A match with more text before it. -/
def Match.behind (before : List Char) (m : Match) : Match :=
  { m with lead := before ++ m.lead }

/-- The words that stand at a cursor, each with the place behind it. -/
def wordsAt (ws : List (List Char)) (c : Cursor) : List (List Char × Cursor) :=
  ws.filterMap fun w => (c.skip? w).map (w, ·)

/-- The same, where the empty word stands in for a list without words. -/
def wordsOrNoneAt (ws : List (List Char)) (c : Cursor) : List (List Char × Cursor) :=
  wordsAt (if ws.isEmpty then [[]] else ws) c

/-- A sigil at a cursor and the alias behind it, by the first reading that ends at a word boundary. -/
def aliasAt? (c : Cursor) : Option Match :=
  (wordsOrNoneAt r.sigils c).findSome? fun (s, c) =>
    ((wordsOrNoneAt r.names c).find? (·.2.atBoundary)).map fun (n, _) => ⟨s, n⟩

/-- What a place can lead to. -/
structure Reading where
  /-- White space, and a sigil with an alias behind. -/
  spaced : Option Match := none
  /-- A sigil with an alias, with or without white space before. -/
  sigil : Option Match := none
  /-- A comment marker, with or without white space before, and then a sigil. -/
  marker : Option Match := none
  /-- An inline sigil, white space, and then a sigil. -/
  inline : Option Match := none
  /-- What counts at this place: at the start of a line a sigil, with or without a marker; anywhere an inline
  sigil, with or without a marker right before it. -/
  found : Option Match := none
  deriving Inhabited

/-- What a cursor can lead to, from what the places behind it can, the nearest first. -/
def readingAt (c : Cursor) (later : List Reading) : Reading :=
  let behind (w : List Char) (part : Reading → Option Match) : Option Match :=
    (part ((later.drop (w.length - 1)).headD {})).map (·.behind w)
  let spaced (part : Reading → Option Match) : Option Match :=
    match c.rest with
    | x :: _ => if Text.isSpace x then (part (later.headD {})).map (·.behind [x]) else none
    | [] => none
  let markers := (wordsAt r.markers c).map (·.1)
  let sigil := spaced (·.sigil) <|> r.aliasAt? c
  let marker := spaced (·.marker) <|> markers.findSome? (behind · (·.sigil))
  let inline := (wordsAt r.inlineSigils c).findSome? fun (w, _) => behind w (·.spaced)
  { spaced := spaced (·.sigil), sigil := sigil, marker := marker, inline := inline
    found := (if c.atLineStart then marker <|> sigil else none) <|>
      markers.findSome? (behind · (·.inline)) <|> inline }

/-- What each place of a text can lead to, the end of it included. -/
def readings : (before : Option Char) → List Char → List Reading
  | before, [] => [r.readingAt ⟨before, []⟩ []]
  | before, c :: cs =>
    let later := readings (some c) cs
    r.readingAt ⟨before, c :: cs⟩ later :: later

/-- The alias that a cursor leads to. -/
def match? (c : Cursor) : Option Match :=
  ((r.readings c.before c.rest).headD {}).found

/-- A piece of a text: a character that stays, or an alias with what leads to it. -/
inductive Piece where
  | kept (c : Char)
  | found (m : Match)

/-- A text cut into pieces, from left to right, by what its places lead to. The first `skip` characters belong
to a match. An empty match counts only where no other match ends (`fresh`). -/
def pieces : (skip : Nat) → (fresh : Bool) → List Char → List Reading → List Piece
  | _, fresh, [], ps =>
    match (ps.headD {}).found with
    | some m => if fresh then [.found m] else []
    | none => []
  | skip + 1, _, _ :: cs, ps => pieces skip false cs ps.tail
  | 0, fresh, c :: cs, ps =>
    match (ps.headD {}).found with
    | none => .kept c :: pieces 0 true cs ps.tail
    | some m =>
      if m.length = 0 then
        (if fresh then [.found m] else []) ++ .kept c :: pieces 0 true cs ps.tail
      else .found m :: pieces (m.length - 1) false cs ps.tail

/-- A piece with its alias renamed. -/
def Piece.render : Piece → List Char
  | .kept c => [c]
  | .found m => m.lead ++ ((r.aliases.get? (String.ofList m.word)).map String.toList).getD m.word

def Piece.isFound : Piece → Bool
  | .kept _ => false
  | .found _ => true

/-- The pieces of a whole text. Without aliases nothing is looked for. -/
def cut (text : String) : List Piece :=
  if r.aliases.isEmpty then text.toList.map .kept
  else pieces 0 true text.toList (r.readings none text.toList)

/-- The text with its aliases renamed. -/
def rename (text : String) : String :=
  String.ofList ((r.cut text).flatMap (Piece.render r))

/-- Whether an alias was found anywhere. -/
def changes (text : String) : Bool :=
  (r.cut text).any Piece.isFound

end Renamer

end DocComments
