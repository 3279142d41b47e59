import DocComments.Yaml.Cursor

/-!
# Scalars of a YAML text

A scalar is written without quotes, in single or double quotes, or as a block: its lines stand below a bar, or
below an angle when they are to be folded.

* `Yaml.Style`: the ways to write a scalar.
* `Yaml.Plain.read?`, `Yaml.Quoted.read?`, `Yaml.Block.read?`: a scalar from a place in a text. Their `fuel` need
  not exceed the length of the text by more than one.
-/

namespace DocComments.Yaml

inductive Style where
  | plain
  | single
  | double
  | literal
  | folded
  deriving DecidableEq

namespace Plain

/-- The characters of a word up to a gap, to a colon that ends a key, or inside brackets to a mark of those.
There a colon may not touch such a mark. -/
def word? (inFlow : Bool) : List Char → Option (List Char)
  | [] => some []
  | c :: cs =>
    if isGap (some c) || (c = ':' && isGap cs.head?) then some []
    else if inFlow && c = ':' && cs.head?.any fun d => isFlowIndicator d || d = '?' then none
    else if inFlow && isFlowIndicator c then some []
    else (word? inFlow cs).map (c :: ·)

/-- The words behind a gap, up to a comment, a mark of documents, or outside brackets a line before the column
`indent`. Also whether a break was passed at the end. Each round takes a character, so `fuel` need not exceed
the length of the text. -/
def words? (inFlow : Bool) (indent : Nat) : (fuel : Nat) → Gap → Cursor → Option (List Char × Bool × Cursor)
  | 0, _, _ => none
  | fuel + 1, gap, c =>
    let passed := ! gap.breaks.isEmpty
    if c.atDocumentMark || c.head? = some '#' then some ([], passed, c)
    else do
      let word ← word? inFlow c.rest
      if word.isEmpty then some ([], passed, c)
      else
        let text := gap.text ++ word
        let c := c.skip word.length
        let (gap, c) ← c.gap? indent fuel false
        if gap.blanks.isEmpty && gap.breaks.isEmpty then some (text, false, c)
        else if ! inFlow && c.column < indent then some (text, ! gap.breaks.isEmpty, c)
        else
          let (more, passed, c) ← words? inFlow indent fuel gap c
          some (text ++ more, passed, c)

/-- A scalar without quotes, and whether a break was passed behind it. -/
def read? (inFlow : Bool) (indent fuel : Nat) (c : Cursor) : Option (List Char × Bool × Cursor) :=
  words? inFlow indent fuel {} c

end Plain

namespace Quoted

def hexValue? (c : Char) : Option Nat :=
  if '0' ≤ c && c ≤ '9' then some (c.toNat - '0'.toNat)
  else if 'a' ≤ c && c ≤ 'f' then some (c.toNat - 'a'.toNat + 10)
  else if 'A' ≤ c && c ≤ 'F' then some (c.toNat - 'A'.toNat + 10)
  else none

/-- The character with a number of `n` hexadecimal digits. -/
def numbered? (n : Nat) (cs : List Char) : Option Char := do
  let ds ← (cs.take n).mapM hexValue?
  let v := ds.foldl (16 * · + ·) 0
  if ds.length = n && v.isValidChar then some (Char.ofNat v) else none

/-- Escapes of one letter, by the number of the character. -/
def escapes : List (Char × Nat) :=
  [('0', 0), ('a', 7), ('b', 8), ('t', 9), ('\t', 9), ('n', 10), ('v', 11), ('f', 12), ('r', 13), ('e', 27),
   (' ', 32), ('"', 34), ('/', 47), ('\\', 92), ('N', 0x85), ('_', 0xA0), ('L', 0x2028), ('P', 0x2029)]

/-- The character that an escape stands for, and the length of the escape behind its backslash. -/
def escape? : List Char → Option (Char × Nat)
  | [] => none
  | 'x' :: cs => (numbered? 2 cs).map (·, 3)
  | 'u' :: cs => (numbered? 4 cs).map (·, 5)
  | 'U' :: cs => (numbered? 8 cs).map (·, 9)
  | c :: _ => (escapes.lookup c).map fun v => (Char.ofNat v, 1)

/-- The characters of a word up to a gap or the quote `q`, and whether an escaped break ends it, which is
passed then. -/
def word? (q : Char) : (fuel : Nat) → Cursor → Option (List Char × Bool × Cursor)
  | 0, _ => none
  | fuel + 1, c =>
    match c.rest with
    | [] => some ([], false, c)
    | d :: ds =>
      if isGap (some d) then some ([], false, c)
      else if q = '\'' && d = '\'' && ds.head? = some '\'' then
        (word? q fuel (c.skip 2)).map fun (s, e, c) => ('\'' :: s, e, c)
      else if d = q then some ([], false, c)
      else if q = '"' && d = '\\' then
        if ds.head?.any isBreak then some ([], true, (c.skip 1).skipBreak)
        else do
          let (e, n) ← escape? ds
          let (s, escaped, c) ← word? q fuel (c.skip (n + 1))
          return (e :: s, escaped, c)
      else (word? q fuel (c.skip 1)).map fun (s, e, c) => (d :: s, e, c)

/-- The text up to the quote `q`, which has to come before the document ends. Behind an escaped break, other
breaks are kept. -/
def text? (q : Char) : (fuel : Nat) → Cursor → Option (List Char × Cursor)
  | 0, _ => none
  | fuel + 1, c =>
    if c.atDocumentMark || c.rest.isEmpty then none
    else do
      let (word, escaped, c) ← word? q (fuel + 1) c
      if c.head? = some q then return (word, c.skip 1)
      else
        let (gap, c) ← c.gap? 0 fuel false
        let (more, c) ← text? q fuel c
        return (word ++ (if escaped then gap.breaks else gap.text) ++ more, c)

/-- A scalar in quotes; the place is that of its quote. -/
def read? (q : Char) (fuel : Nat) (c : Cursor) : Option (List Char × Cursor) :=
  text? q fuel (c.skip 1)

end Quoted

namespace Block

/-- What stands behind the bar: the indent of the lines, if it is given, and what becomes of the breaks at the
end. They may come in either order. -/
def hints? (c : Cursor) : Option (Option Nat × Option Char × Cursor) :=
  match sign? c with
  | some (s, c) =>
    match digit? c with
    | some (d, c) => if d = 0 then none else some (some d, some s, c)
    | none => some (none, some s, c)
  | none =>
    match digit? c with
    | some (d, c) =>
      if d = 0 then none
      else
        match sign? c with
        | some (s, c) => some (some d, some s, c)
        | none => some (some d, none, c)
    | none => some (none, none, c)
where
  sign? (c : Cursor) : Option (Char × Cursor) :=
    c.head?.bind fun s => if s = '+' || s = '-' then some (s, c.skip 1) else none
  digit? (c : Cursor) : Option (Nat × Cursor) :=
    c.head?.bind fun d => if d.isDigit then some (d.toNat - '0'.toNat, c.skip 1) else none

/-- The breaks before the next line with a text, with the blanks of each line up to the indent, and the column
of the furthest blank. While the indent is not known, all blanks belong to it. No tab may stand there. -/
def breaks? (indent : Option Nat) :
    (fuel : Nat) → (widest : Nat) → Cursor → Option (List Char × Nat × Cursor)
  | 0, _, _ => none
  | fuel + 1, widest, c =>
    let blanks := (c.takeWhile (· = ' ')).1.length
    let c := c.skip (match indent with
      | some n => min blanks (n - c.column)
      | none => blanks)
    let widest := max widest c.column
    if indent.all (c.column < ·) && c.head? = some '\t' then none
    else
      match c.break? with
      | none => some ([], widest, c)
      | some (b, c) => (breaks? indent fuel widest c).map fun (bs, w, c) => (b :: bs, w, c)

/-- The text of the lines at an indent. `before` is the break of the line before, `blank` whether that line
started with a blank, and `gap` holds the breaks of the empty lines since. A folded break is a blank, or
nothing before empty lines, but not next to a line that starts with a blank. Also the breaks at the end: that
of the last line, and those behind it. -/
def lines? (folded : Bool) (indent : Nat) :
    (fuel : Nat) → (before : List Char) → (blank : Bool) → (gap : List Char) → Cursor →
      Option (List Char × List Char × List Char × Cursor)
  | 0, _, _, _, _ => none
  | fuel + 1, before, blank, gap, c =>
    if c.column ≠ indent || c.rest.isEmpty then some ([], before, gap, c)
    else do
      let starts := c.head?.any isBlank
      let lead :=
        if folded && before = ['\n'] && ! blank && ! starts then (if gap.isEmpty then [' '] else [])
        else before
      let (line, c) := c.takeWhile (! isBreak ·)
      let (before, c) :=
        match c.break? with
        | some (b, c) => ([b], c)
        | none => ([], c)
      let (more, _, c) ← breaks? (some indent) (fuel + 1) 0 c
      let (text, before, more, c) ← lines? folded indent fuel before starts more c
      return (lead ++ gap ++ line ++ text, before, more, c)

/-- A block scalar; the place is that of its bar, and `indent` the column of the collection around it, which
may be none. Its first line with a text sets the indent of the lines. -/
def read? (folded : Bool) (indent : Int) (fuel : Nat) (c : Cursor) : Option (List Char × Cursor) := do
  let (given, sign, c) ← hints? (c.skip 1)
  let c ← c.lineEnd?
  let given := given.map fun n => (max indent 0).toNat + n
  let (gap, widest, c) ← breaks? given fuel 0 c
  let column := given.getD (max widest (max (indent + 1).toNat 1))
  let (text, before, gap, c) ← lines? folded column fuel [] false gap c
  let tail :=
    match sign with
    | some '-' => []
    | some _ => before ++ gap
    | none => before
  return (text ++ tail, c)

end Block

end DocComments.Yaml
