import DocComments.Value
import DocComments.Yaml

/-!
# Writing YAML

A value is written in the block form, two blanks per level; the items of a list stand right below their key.
A text goes without quotes unless it would be read as something else. It is quoted singly where that is
enough, doubly where characters have to be escaped, and written as a literal when it has several lines. A key
of several lines or of more than 128 bytes stands behind a question mark.

* `Yaml.styleOf`: how a text is written.
* `Yaml.Row`: a line that is written.
* `Yaml.print`: a value as a document.
-/

namespace DocComments.Yaml

/-- Whether a character may stand outside double quotes. -/
def isPrintable (c : Char) : Bool :=
  let n := c.toNat
  n = 0xA || (0x20 ≤ n && n ≤ 0x7E) || (0xA0 ≤ n && n ≤ 0xD7FF) ||
    (0xE000 ≤ n && n ≠ 0xFEFF && n ≠ 0xFFFE && n ≠ 0xFFFF)

/-- Whether a text would be read as something else. -/
def isAmbiguous (s : String) : Bool :=
  match Spelling.value? s with
  | some (.str _) => Spelling.isPadded s
  | _ => true

/-- Whether the text at its start has a meaning outside quotes. -/
def startsMarked : List Char → Bool
  | [] => false
  | c :: cs =>
    isIndicator c || ((c = '-' || c = '?' || c = ':') && isGap cs.head?) ||
      "---".toList.isPrefixOf (c :: cs) || "...".toList.isPrefixOf (c :: cs)

/-- Whether a colon before a gap or a comment mark behind one stands in the text. -/
def hasMark (before : Char) : List Char → Bool
  | [] => false
  | c :: cs =>
    (c = ':' && isGap cs.head?) || (c = '#' && isGap (some before)) || hasMark c cs

/-- Whether two kinds of characters follow each other somewhere. -/
def hasPair (p q : Char → Bool) : List Char → Bool
  | a :: b :: cs => (p a && q b) || hasPair p q (b :: cs)
  | _ => false

/-- How a text is written. -/
def styleOf (s : String) : Style :=
  let cs := s.toList
  let isSpace (c : Char) : Bool := c = ' '
  let special := cs.any (! isPrintable ·) || hasPair isSpace isBreak cs
  let breakSpace := hasPair isBreak isSpace cs
  let edge := cs.head?.any isSpace || cs.getLast?.any isSpace
  let plainAllowed := ! (edge || special || cs.any isBreak || startsMarked cs || hasMark 'x' (cs.drop 1))
  if cs.contains '\n' then
    if cs.getLast?.any isSpace || special then .double else .literal
  else if ! isAmbiguous s && plainAllowed then .plain
  else if breakSpace || special then .double
  else .single

def upperHex (width n : Nat) : List Char :=
  let ds := (Nat.toDigits 16 n).map Char.toUpper
  List.replicate (width - ds.length) '0' ++ ds

/-- Escapes of one letter that are written. -/
def shortEscapes : List (Nat × Char) :=
  [(0, '0'), (7, 'a'), (8, 'b'), (9, 't'), (10, 'n'), (11, 'v'), (12, 'f'), (13, 'r'), (27, 'e'),
   (34, '"'), (92, '\\'), (0x85, 'N'), (0xA0, '_'), (0x2028, 'L'), (0x2029, 'P')]

/-- A character between double quotes. -/
def escapeDouble (c : Char) : List Char :=
  let n := c.toNat
  if isPrintable c && ! isBreak c && c ≠ '"' && c ≠ '\\' then [c]
  else
    match shortEscapes.lookup n with
    | some e => ['\\', e]
    | none =>
      if n ≤ 0xFF then '\\' :: 'x' :: upperHex 2 n
      else if n ≤ 0xFFFF then '\\' :: 'u' :: upperHex 4 n
      else '\\' :: 'U' :: upperHex 8 n

/-- A character between single quotes. -/
def escapeSingle (c : Char) : List Char :=
  if c = '\'' then ['\'', '\''] else [c]

/-- What stands behind the bar of a literal: its indent when the text starts with a gap, and what becomes of
the breaks at its end. -/
def literalHints (cs : List Char) : List Char :=
  let indent := if cs.head?.any (fun c => c = ' ' || isBreak c) then ['2'] else []
  let chomp :=
    match cs.reverse with
    | [] => ['-']
    | [c] => if isBreak c then ['+'] else ['-']
    | c :: d :: _ => if ! isBreak c then ['-'] else if isBreak d then ['+'] else []
  indent ++ chomp

/-- A line that is written, and the break behind it. A line inside a text ends with the break of the text. -/
structure Row where
  text : List Char
  ending : Char := '\n'

namespace Row

/-- A row two columns further in. An empty one stays so. -/
def indent (r : Row) : Row :=
  if r.text.isEmpty then r else { r with text := ' ' :: ' ' :: r.text }

/-- Rows with a mark before the first one. -/
def lead (mark : List Char) : List Row → List Row
  | [] => [⟨mark, '\n'⟩]
  | r :: rs => { r with text := mark ++ r.text } :: rs

/-- The same, where the other rows stand below what comes behind the mark. -/
def leadBlock (mark : List Char) (rs : List Row) : List Row :=
  lead mark (rs.take 1) ++ (rs.drop 1).map indent

end Row

/-- The lines of a text, each with its break, and what is behind the last break. -/
def splitBreaks : List Char → List Row × List Char
  | [] => ([], [])
  | c :: cs =>
    match splitBreaks cs with
    | (rs, last) =>
      if isBreak c then (⟨[], c⟩ :: rs, last)
      else
        match rs with
        | [] => ([], c :: last)
        | r :: rs => ({ r with text := c :: r.text } :: rs, last)

/-- The rows of a text. Those behind the first are indented. -/
def textRows (s : String) : List Row :=
  match styleOf s with
  | .plain => [⟨s.toList, '\n'⟩]
  | .double => [⟨'"' :: s.toList.flatMap escapeDouble ++ ['"'], '\n'⟩]
  | .single =>
    let (rs, last) := splitBreaks (s.toList.flatMap escapeSingle)
    Row.leadBlock ['\''] (rs ++ [⟨last ++ ['\''], '\n'⟩])
  | _ =>
    let (rs, last) := splitBreaks s.toList
    let rs := if last.isEmpty then rs else rs ++ [⟨last, '\n'⟩]
    ⟨'|' :: literalHints s.toList, '\n'⟩ :: rs.map Row.indent

/-- Whether a key goes behind a question mark. -/
def isLongKey (k : String) : Bool :=
  k.toList.any isBreak || 128 < k.utf8ByteSize

/-- The text of a key on one line. -/
def keyText (k : String) : List Char :=
  (textRows k).flatMap (·.text)

mutual

/-- The rows of a value behind a mark that it stands next to. -/
def marked (mark : List Char) : Value → List Row
  | .null => [⟨mark ++ "null".toList, '\n'⟩]
  | .bool b => [⟨mark ++ (if b then "true" else "false").toList, '\n'⟩]
  | .int n => [⟨mark ++ (toString n).toList, '\n'⟩]
  | .decimal s => [⟨mark ++ s.toList, '\n'⟩]
  | .str s => Row.lead mark (textRows s)
  | .arr vs => if vs.isEmpty then [⟨mark ++ "[]".toList, '\n'⟩] else Row.leadBlock mark (itemRows vs)
  | .obj fs => if fs.isEmpty then [⟨mark ++ "\x7b\x7d".toList, '\n'⟩] else Row.leadBlock mark (fieldRows fs)

def itemRows : List Value → List Row
  | [] => []
  | v :: vs => marked "- ".toList v ++ itemRows vs

def fieldRows : List (String × Value) → List Row
  | [] => []
  | (k, v) :: fs =>
    (if isLongKey k then Row.lead "? ".toList (textRows k) ++ marked ": ".toList v
    else
      match v with
      | .arr (w :: ws) => ⟨keyText k ++ [':'], '\n'⟩ :: itemRows (w :: ws)
      | .obj (f :: gs) => ⟨keyText k ++ [':'], '\n'⟩ :: (fieldRows (f :: gs)).map Row.indent
      | v => marked (keyText k ++ ": ".toList) v) ++ fieldRows fs

end

/-- The rows of a document. -/
def documentRows : Value → List Row
  | .arr (v :: vs) => itemRows (v :: vs)
  | .obj (f :: fs) => fieldRows (f :: fs)
  | v => marked [] v

/-- A value as a document. -/
def print (v : Value) : String :=
  String.ofList ((documentRows v).flatMap fun r => r.text ++ [r.ending])

end DocComments.Yaml
