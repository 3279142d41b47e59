/-!
# Places in a YAML text

A text is read from left to right. A cursor is a place in it: the characters that follow, and how many
bytes, lines and columns lie before it. The column tells what belongs together; lines end with any of
the five breaks of the format, of which a carriage return and a line feed are one.

* `Yaml.Cursor`: a place in a text.
* `Yaml.Cursor.break?`: past a break.
* `Yaml.Cursor.gap?`: past blanks and breaks.
-/

namespace DocComments.Yaml

def isBlank (c : Char) : Bool :=
  c = ' ' || c = '\t'

/-- A separator of lines or paragraphs; it is kept where other breaks become line feeds. -/
def isSeparator (c : Char) : Bool :=
  c.toNat = 0x2028 || c.toNat = 0x2029

def isBreak (c : Char) : Bool :=
  c = '\n' || c = '\r' || c.toNat = 0x85 || isSeparator c

/-- Whether a blank, a break or the end of the text comes. -/
def isGap (c : Option Char) : Bool :=
  c.all fun c => isBlank c || isBreak c

/-- Brackets, braces and the comma, which have a meaning inside brackets. -/
def isFlowIndicator (c : Char) : Bool :=
  ",[]\x7b\x7d".toList.contains c

/-- Characters that a scalar without quotes does not start with. -/
def isIndicator (c : Char) : Bool :=
  isFlowIndicator c || "#&*!|>'\"%@".toList.contains c || c.toNat = 0x60

/-- A place in a text: what follows, and what lies before it. -/
structure Cursor where
  rest : List Char
  /-- The number of bytes before it. -/
  index : Nat := 0
  line : Nat := 0
  column : Nat := 0

/-- What separates two words: the blanks up to the first break, and the breaks. -/
structure Gap where
  blanks : List Char := []
  breaks : List Char := []

/-- The text that a gap stands for: one break is a blank, and of several the first does not count, unless it
is a separator. -/
def Gap.text : Gap → List Char
  | ⟨blanks, []⟩ => blanks
  | ⟨_, ['\n']⟩ => [' ']
  | ⟨_, '\n' :: more⟩ => more
  | ⟨_, breaks⟩ => breaks

namespace Cursor

def head? (c : Cursor) : Option Char := c.rest.head?

def second? (c : Cursor) : Option Char := (c.rest.drop 1).head?

/-- Past the next `n` characters, which are on one line. -/
def skip (n : Nat) (c : Cursor) : Cursor :=
  { c with
    rest := c.rest.drop n
    index := (c.rest.take n).foldl (fun i d => i + d.utf8Size) c.index
    column := c.column + n }

/-- The next characters of a kind, which has no breaks. -/
def takeWhile (p : Char → Bool) (c : Cursor) : List Char × Cursor :=
  let s := c.rest.takeWhile p
  (s, c.skip s.length)

def dropWhile (p : Char → Bool) (c : Cursor) : Cursor :=
  (c.takeWhile p).2

def skipBlanks (c : Cursor) : Cursor :=
  c.dropWhile isBlank

/-- Past the character `m`, which has to come. -/
def expect? (m : Char) (c : Cursor) : Option Cursor :=
  if c.head? = some m then some (c.skip 1) else none

/-- Past a mark of the byte order at the start of a line. -/
def skipByteOrderMark (c : Cursor) : Cursor :=
  if c.column = 0 && c.head?.any (·.toNat = 0xFEFF) then c.skip 1 else c

/-- Past a comment, if there is one. -/
def skipComment (c : Cursor) : Cursor :=
  if c.head? = some '#' then c.dropWhile (! isBreak ·) else c

/-- Past a break: what is kept of it. -/
def break? (c : Cursor) : Option (Char × Cursor) :=
  match c.rest with
  | '\r' :: '\n' :: rest => some ('\n', ⟨rest, c.index + 2, c.line + 1, 0⟩)
  | b :: rest =>
    if isBreak b then some (if isSeparator b then b else '\n', ⟨rest, c.index + b.utf8Size, c.line + 1, 0⟩)
    else none
  | [] => none

/-- Past a break, if there is one. -/
def skipBreak (c : Cursor) : Cursor :=
  (c.break?.map (·.2)).getD c

/-- Past the end of the line, where only blanks and a comment may stand before it. -/
def lineEnd? (c : Cursor) : Option Cursor :=
  let c := c.skipBlanks.skipComment
  if c.head?.all isBreak then some c.skipBreak else none

/-- Whether a line starts with a mark that begins or ends a document. -/
def atDocumentMark (c : Cursor) : Bool :=
  c.column = 0 && isGap (c.rest.drop 3).head? && (c.rest.take 3 = "---".toList || c.rest.take 3 = "...".toList)

/-- Past blanks and breaks, of which at most `fuel` follow. Behind a break, a tab may not stand before the
column `indent`; `broken` says whether one came before. -/
def gap? (indent : Nat) : (fuel : Nat) → (broken : Bool) → Cursor → Option (Gap × Cursor)
  | 0, _, c => some ({}, c)
  | fuel + 1, broken, c =>
    match c.break? with
    | some (b, c) => (gap? indent fuel true c).map fun (g, c) => ({ g with breaks := b :: g.breaks }, c)
    | none =>
      match c.head? with
      | none => some ({}, c)
      | some b =>
        if ! isBlank b then some ({}, c)
        else if broken && b = '\t' && c.column < indent then none
        else
          (gap? indent fuel broken (c.skip 1)).map fun (g, c) =>
            (if broken then g else { g with blanks := b :: g.blanks }, c)

end Cursor

end DocComments.Yaml
