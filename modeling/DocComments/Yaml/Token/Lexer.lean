import DocComments.Yaml.Token

/-!
# Cutting a YAML text into tokens

Outside brackets the indent decides what belongs together: a block starts where a key or a dash stands further
in than the block around it, and ends where a line starts further out. Whether a node is a key shows only at
the colon behind it, on the same line and at most 1024 bytes on. Until then its place is kept.

* `Yaml.KeyPlace`: where a key may have started.
* `Yaml.Lexer`: the tokens so far, the open blocks and brackets, and the places of keys.
* `Yaml.Token.ofText?`: the tokens of a whole text.
-/

namespace DocComments.Yaml

/-- Where a key may have started. It has to be one where it stands at the indent of the block. -/
structure KeyPlace where
  required : Bool
  /-- The number of tokens before it. -/
  before : Nat
  index : Nat
  line : Nat
  column : Nat

structure Lexer where
  cursor : Cursor
  /-- The tokens so far, the last one first. -/
  tokens : List Token := []
  /-- The number of tokens so far. -/
  count : Nat := 0
  /-- The column of the open block; there is none at first. -/
  indent : Int := -1
  /-- The columns of the blocks around it. -/
  indents : List Int := []
  /-- Where a key may have started inside the innermost brackets. -/
  place : Option KeyPlace := none
  /-- The same for the brackets around them. -/
  outer : List (Option KeyPlace) := []
  /-- Whether a key may start here. -/
  keyAllowed : Bool := true
  /-- The numbers of anchors by name. -/
  anchors : List (String × Nat) := []

namespace Lexer

variable (l : Lexer)

def inFlow : Bool := ! l.outer.isEmpty

def emit (t : Token) : Lexer :=
  { l with tokens := t :: l.tokens, count := l.count + 1 }

/-- A token behind the first `n` ones. -/
def emitAt (n : Nat) (t : Token) : Lexer :=
  let later := l.count - n
  { l with tokens := l.tokens.take later ++ t :: l.tokens.drop later, count := l.count + 1 }

/-- A mark of `n` characters. -/
def mark (n : Nat) (t : Token) : Lexer :=
  { l.emit t with cursor := l.cursor.skip n }

/-- Starts a block at a column, if it stands further in than the open one. Its token comes behind the first
`n` ones. -/
def openBlock (column n : Nat) (t : Token) : Lexer :=
  if ! l.inFlow && l.indent < column then
    { l.emitAt n t with indent := column, indents := l.indent :: l.indents }
  else l

/-- Ends the blocks of a stack that stand further in than a column. -/
def closeFrom (column : Int) : (indents : List Int) → Lexer → Lexer
  | [], l => l
  | i :: is, l =>
    if column < l.indent then closeFrom column is { l.emit .blockEnd with indent := i, indents := is } else l

/-- Ends the blocks that stand further in than a column. Inside brackets the indent does not count. -/
def closeBlocks (column : Int) : Lexer :=
  if l.inFlow then l else closeFrom column l.indents l

/-- Gives up the innermost place of a key. -/
def dropPlace? : Option Lexer :=
  if l.place.any (·.required) then none else some { l with place := none }

/-- Keeps this place for a key, if one may start here. -/
def keepPlace? : Option Lexer :=
  if l.keyAllowed then
    l.dropPlace?.map fun l =>
      let c := l.cursor
      { l with place := some {
          required := ! l.inFlow && l.indent = c.column
          before := l.count, index := c.index, line := c.line, column := c.column } }
  else some l

/-- Whether the colon of a key can no longer come. -/
def isStale (p : KeyPlace) : Bool :=
  p.line < l.cursor.line || p.index + 1024 < l.cursor.index

/-- Gives up the innermost place of a key when the text has left it behind. Those around it wait until their
brackets close. -/
def dropStale? : Option Lexer :=
  if l.place.any l.isStale then l.dropPlace? else some l

/-- Past blanks, comments and breaks. A mark of the byte order may stand at the start of a line, and counts as
a column. Where a key may start, a tab is no blank. Each round takes a break, so `fuel` need not exceed the
length of the text. -/
def skipToToken : (fuel : Nat) → Lexer → Lexer
  | 0, l => l
  | fuel + 1, l =>
    let tabs := l.inFlow || ! l.keyAllowed
    let c := l.cursor.skipByteOrderMark.dropWhile fun c => c = ' ' || (tabs && c = '\t')
    let c := c.skipComment
    match c.break? with
    | some (_, c) => skipToToken fuel { l with cursor := c, keyAllowed := l.keyAllowed || ! l.inFlow }
    | none => { l with cursor := c }

/-- A mark of a document, which ends all blocks. -/
def documentMark? (n : Nat) (t : Token) : Option Lexer :=
  (l.closeBlocks (-1)).dropPlace?.map fun l => { l.mark n t with keyAllowed := false }

def isNameChar (c : Char) : Bool :=
  c.isAlphanum || c = '_' || c = '-'

/-- A number of at most nine digits. -/
def number? (c : Cursor) : Option (Nat × Cursor) :=
  let (ds, c) := c.takeWhile Char.isDigit
  if ds.isEmpty || 9 < ds.length then none
  else some (ds.foldl (fun n d => 10 * n + (d.toNat - '0'.toNat)) 0, c)

def isUriChar (brackets : Bool) (c : Char) : Bool :=
  isNameChar c || ";/?:@&=+$.%!~*'()".toList.contains c || (brackets && ",[]".toList.contains c)

/-- The number of bytes of a character, by its first one. -/
def byteCount? (b : Nat) : Option Nat :=
  if b < 0x80 then some 1
  else if 0xC0 ≤ b && b < 0xE0 then some 2
  else if 0xE0 ≤ b && b < 0xF0 then some 3
  else if 0xF0 ≤ b && b < 0xF8 then some 4
  else none

/-- A text with its bytes written behind percent signs; `more` bytes of a character are still to come. -/
def decodeUri? : (fuel more : Nat) → List Char → Option (List UInt8)
  | 0, _, _ => none
  | fuel + 1, more, '%' :: a :: b :: cs => do
    let n := 16 * (← Quoted.hexValue? a) + (← Quoted.hexValue? b)
    let more ←
      if more = 0 then (byteCount? n).map (· - 1)
      else if 0x80 ≤ n && n < 0xC0 then some (more - 1)
      else none
    return n.toUInt8 :: (← decodeUri? fuel more cs)
  | fuel + 1, 0, c :: cs => if c = '%' then none else (decodeUri? fuel 0 cs).map (c.toUInt8 :: ·)
  | _, 0, [] => some []
  | _, _, _ => none

/-- The bytes of a tag. -/
def uri? (brackets : Bool) (c : Cursor) : Option (List UInt8 × Cursor) := do
  let (cs, c) := c.takeWhile (isUriChar brackets)
  return (← decodeUri? (cs.length + 1) 0 cs, c)

/-- A handle of tags: a name between exclamation marks, of which the last may be missing. -/
def handle? (c : Cursor) : Option (String × Cursor) := do
  let c ← c.expect? '!'
  let (name, c) := c.takeWhile isNameChar
  let name := "!" ++ String.ofList name
  return match c.expect? '!' with
    | some c => (name ++ "!", c)
    | none => (name, c)

/-- A directive; the place is that of its percent sign. -/
def directive? (c : Cursor) : Option (Token × Cursor) := do
  let (name, c) := (c.skip 1).takeWhile isNameChar
  if ! isGap c.head? then none
  let c := c.skipBlanks
  if name = "YAML".toList then
    let (major, c) ← number? c
    let (minor, c) ← number? (← c.expect? '.')
    return (.version major minor, ← c.lineEnd?)
  else if name = "TAG".toList then
    let (handle, c) ← handle? c
    if handle ≠ "!" && (handle.endsWith "!" && 1 < handle.length) = false then none
    if ! c.head?.any isBlank then none
    let (meaning, c) ← uri? true c.skipBlanks
    if meaning.isEmpty || ! isGap c.head? then none
    return (.handle handle (.ofBytes meaning), ← c.lineEnd?)
  else none

/-- A tag: as it is between angles, or with a handle before it. -/
def tag? (inFlow : Bool) (c : Cursor) : Option (Token × Cursor) := do
  let (t, c) ←
    if c.second? = some '<' then do
      let (uri, c) ← uri? true (c.skip 2)
      if uri.isEmpty then none
      some (Token.tag "" (.ofBytes uri), ← c.expect? '>')
    else do
      let (handle, c) ← handle? c
      let (suffix, c) ← uri? false c
      if 1 < handle.length && handle.endsWith "!" then
        if suffix.isEmpty then none else some (Token.tag handle (.ofBytes suffix), c)
      else
        let suffix := NodeTag.ofString (handle.drop 1).copy ++ .ofBytes suffix
        some (if suffix.isEmpty then Token.tag "" .mark else Token.tag "!" suffix, c)
  if (inFlow && c.head? = some ',') || isGap c.head? then some (t, c) else none

/-- The name behind the mark of an anchor or a reference. -/
def name? (c : Cursor) : Option (String × Cursor) :=
  let (name, c) := (c.skip 1).takeWhile isNameChar
  let ends := isGap c.head? || c.head?.any fun d => "?:,]\x7d%@".toList.contains d || d.toNat = 0x60
  if name.isEmpty || ! ends then none else some (String.ofList name, c)

/-- The colon behind a key. A key that was kept gets its mark now, and a block around it if it is the first;
else the key was marked before, or is empty. -/
def colon? : Option Lexer :=
  match l.place with
  | some p =>
    let l := (l.emitAt p.before .key).openBlock p.column p.before .blockMapStart
    some { l.mark 1 .value with place := none, keyAllowed := false }
  | none =>
    if l.inFlow then some { l.mark 1 .value with keyAllowed := false }
    else if l.keyAllowed then
      let l := l.openBlock l.cursor.column l.count .blockMapStart
      some { l.mark 1 .value with keyAllowed := true }
    else none

/-- A dash or a question mark, which may start a block. -/
def entry? (start t : Token) : Option Lexer :=
  if l.inFlow then
    l.dropPlace?.map fun l => { l.mark 1 t with keyAllowed := t = .item }
  else if l.keyAllowed then
    (l.openBlock l.cursor.column l.count start).dropPlace?.map fun l =>
      { l.mark 1 t with keyAllowed := true }
  else none

/-- An opening bracket, which may start a key. -/
def openFlow? (t : Token) : Option Lexer :=
  l.keepPlace?.map fun l =>
    { l.mark 1 t with place := none, outer := l.place :: l.outer, keyAllowed := true }

/-- A closing bracket. -/
def closeFlow? (t : Token) : Option Lexer :=
  l.dropPlace?.map fun l =>
    let l := { l.mark 1 t with keyAllowed := false }
    match l.outer with
    | p :: outer => { l with place := p, outer }
    | [] => l

/-- A token that may start a key, read from the cursor. -/
def node? (r : Option (Token × Cursor)) : Option Lexer := do
  let l ← l.keepPlace?
  let (t, cursor) ← r
  return { l.emit t with cursor, keyAllowed := false }

/-- An anchor. It is numbered by how many other names there are; a name that comes again gets a new number, and
the next new name may get the same one. -/
def anchor? : Option Lexer := do
  let (name, c) ← name? l.cursor
  let number := l.anchors.length
  let l ← l.node? (some (.anchor number, c))
  return { l with anchors := (name, number) :: l.anchors.filter (·.1 ≠ name) }

/-- A reference to an anchor before it. -/
def reference? : Option Lexer := do
  let (name, c) ← name? l.cursor
  l.node? (some (.reference (← l.anchors.lookup name), c))

def blockScalar? (fuel : Nat) (folded : Bool) : Option Lexer := do
  let l ← l.dropPlace?
  let (s, cursor) ← Block.read? folded l.indent fuel l.cursor
  let t := Token.scalar (String.ofList s) (if folded then .folded else .literal)
  return { l.emit t with cursor, keyAllowed := true }

def quotedScalar? (fuel : Nat) (q : Char) : Option Lexer :=
  l.node? ((Quoted.read? q fuel l.cursor).map fun (s, c) =>
    (.scalar (String.ofList s) (if q = '"' then .double else .single), c))

/-- Whether a scalar without quotes may start with a character before another one. -/
def startsPlain (c : Char) (next : Option Char) : Bool :=
  if c = '-' then ! isGap next
  else if c = '?' || c = ':' then ! l.inFlow && ! isGap next
  else ! isGap (some c) && ! isIndicator c

def plainScalar? (fuel : Nat) : Option Lexer := do
  let (s, passed, c) ← Plain.read? l.inFlow (l.indent + 1).toNat fuel l.cursor
  let l ← l.node? (some (.scalar (String.ofList s) .plain, c))
  return { l with keyAllowed := passed }

/-- The tokens that the next characters give. The readers of scalars need `fuel`. -/
def step? (fuel : Nat) (c : Char) : Option Lexer :=
  let next := l.cursor.second?
  if l.cursor.column = 0 && c = '%' then do
    let (t, cursor) ← directive? l.cursor
    let l ← l.documentMark? 0 t
    return { l with cursor }
  else if l.cursor.atDocumentMark then
    l.documentMark? 3 (if c = '-' then .documentStart else .documentEnd)
  else if c = '[' then l.openFlow? .flowListStart
  else if c = '\x7b' then l.openFlow? .flowMapStart
  else if c = ']' then l.closeFlow? .flowListEnd
  else if c = '\x7d' then l.closeFlow? .flowMapEnd
  else if c = ',' then l.dropPlace?.map fun l => { l.mark 1 .comma with keyAllowed := true }
  else if c = '-' && isGap next then l.entry? .blockListStart .item
  else if c = '?' && (l.inFlow || isGap next) then l.entry? .blockMapStart .key
  else if c = ':' && (l.inFlow || isGap next) then l.colon?
  else if c = '*' then l.reference?
  else if c = '&' then l.anchor?
  else if c = '!' then l.node? (tag? l.inFlow l.cursor)
  else if c = '|' && ! l.inFlow then l.blockScalar? fuel false
  else if c = '>' && ! l.inFlow then l.blockScalar? fuel true
  else if c = '\'' || c = '"' then l.quotedScalar? fuel c
  else if l.startsPlain c next then l.plainScalar? fuel
  else none

/-- All tokens up to the end. Each round takes a character, so `fuel` need not exceed the length of the text
by more than one. -/
def run? : (fuel : Nat) → Lexer → Option (List Token)
  | 0, _ => none
  | fuel + 1, l => do
    let l ← (skipToToken (fuel + 1) l).dropStale?
    let l := l.closeBlocks l.cursor.column
    match l.cursor.head? with
    | none => do
      let l ← (l.closeBlocks (-1)).dropPlace?
      return (l.emit .streamEnd).tokens.reverse
    | some c => run? fuel (← l.step? (fuel + 1) c)

end Lexer

/-- Characters that a text may hold. -/
def isReadable (c : Char) : Bool :=
  let n := c.toNat
  n = 0x9 || n = 0xA || n = 0xD || (0x20 ≤ n && n ≤ 0x7E) || n = 0x85 ||
    (0xA0 ≤ n && n ≠ 0xFFFE && n ≠ 0xFFFF)

/-- The tokens of a whole text. -/
def Token.ofText? (s : String) : Option (List Token) :=
  let cs := s.toList
  if cs.all isReadable then Lexer.run? (cs.length + 1) { cursor := { rest := cs } } else none

end DocComments.Yaml
