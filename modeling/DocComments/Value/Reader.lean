import DocComments.Decimal
import DocComments.Value.Draft

/-!
# Reading values

A JSON text is read as it is written, and refused only where it is no JSON. Numbers beyond double precision,
texts with half a character, and arrays and objects nested more than 127 deep are there, but cannot be used.

* `Value.read?`: the draft that a whole text spells.
-/

namespace DocComments.Value.Reader

def isBlank (c : Char) : Bool :=
  c = ' ' || c = '\n' || c = '\t' || c = '\r'

def skip (cs : List Char) : List Char :=
  cs.dropWhile isBlank

/-- What is nested beyond this cannot be used. -/
def maxDepth : Nat := 127

def hexValue? (c : Char) : Option Nat :=
  if '0' ≤ c && c ≤ '9' then some (c.toNat - '0'.toNat)
  else if 'a' ≤ c && c ≤ 'f' then some (c.toNat - 'a'.toNat + 10)
  else if 'A' ≤ c && c ≤ 'F' then some (c.toNat - 'A'.toNat + 10)
  else none

/-- Four hexadecimal digits. -/
def unit? : List Char → Option (Nat × List Char)
  | a :: b :: c :: d :: cs => do
    let a ← hexValue? a
    let b ← hexValue? b
    let c ← hexValue? c
    let d ← hexValue? d
    return (((a * 16 + b) * 16 + c) * 16 + d, cs)
  | _ => none

/-- The character that an escape stands for, if it stands for one; the text starts behind the backslash. A
character outside the basic plane is written as two units, of which one by itself stands for none. -/
def escape? : List Char → Option (Option Char × List Char)
  | '"' :: cs => some (some '"', cs)
  | '\\' :: cs => some (some '\\', cs)
  | '/' :: cs => some (some '/', cs)
  | 'b' :: cs => some (some '\x08', cs)
  | 'f' :: cs => some (some '\x0c', cs)
  | 'n' :: cs => some (some '\n', cs)
  | 'r' :: cs => some (some '\r', cs)
  | 't' :: cs => some (some '\t', cs)
  | 'u' :: cs => do
    let (hi, cs) ← unit? cs
    if 0xD800 ≤ hi && hi ≤ 0xDBFF then
      match secondUnit? cs with
      | some (lo, cs) => some (some (Char.ofNat (0x10000 + (hi - 0xD800) * 0x400 + (lo - 0xDC00))), cs)
      | none => some (none, cs)
    else if 0xDC00 ≤ hi && hi ≤ 0xDFFF then some (none, cs)
    else some (some (Char.ofNat hi), cs)
  | _ => none
where
  secondUnit? : List Char → Option (Nat × List Char)
    | '\\' :: 'u' :: cs => (unit? cs).filter fun (lo, _) => 0xDC00 ≤ lo && lo ≤ 0xDFFF
    | _ => none

/-- The characters up to the closing quote. Each round takes at least one character, so `fuel` need not exceed
the length of the text. -/
def string? : (fuel : Nat) → List Char → Option (List (Option Char) × List Char)
  | 0, _ => none
  | _, [] => none
  | _, '"' :: cs => some ([], cs)
  | fuel + 1, '\\' :: cs => do
    let (c, cs) ← escape? cs
    let (s, cs) ← string? fuel cs
    return (c :: s, cs)
  | fuel + 1, c :: cs =>
    if c.toNat < 0x20 then none
    else do
      let (s, cs) ← string? fuel cs
      return (some c :: s, cs)

/-- A text, up to the closing quote. -/
def text? (fuel : Nat) (cs : List Char) : Option (Option String × List Char) := do
  let (s, cs) ← string? fuel cs
  return ((s.mapM id).map String.ofList, cs)

/-- The digits at the start of a text. -/
def digits (cs : List Char) : List Char × List Char :=
  cs.span Char.isDigit

/-- An exponent, if there is one: its letter, sign and digits. -/
def exponent? : List Char → Option ((List Char × Int) × List Char)
  | c :: cs =>
    if c = 'e' || c = 'E' then
      let (sign, cs) :=
        match cs with
        | '+' :: cs => (['+'], cs)
        | '-' :: cs => (['-'], cs)
        | cs => ([], cs)
      let (ds, cs) := digits cs
      if ds.isEmpty then none
      else
        let n : Int := Decimal.natOfDigits ds
        some ((c :: sign ++ ds, if sign = ['-'] then -n else n), cs)
    else some (([], 0), c :: cs)
  | [] => some (([], 0), [])

/-- A fraction, if there is one: its point and digits. -/
def fraction? : List Char → Option (List Char × List Char)
  | '.' :: cs =>
    let (ds, cs) := digits cs
    if ds.isEmpty then none else some ('.' :: ds, cs)
  | cs => some ([], cs)

/-- A number. It is an integer when it has no fraction and no exponent and fits a signed or unsigned word of
64 bits; minus zero is no integer. -/
def number? (cs : List Char) : Option (Draft × List Char) := do
  let (sign, cs) :=
    match cs with
    | '-' :: cs => (['-'], cs)
    | cs => ([], cs)
  let (whole, cs) := digits cs
  if whole.isEmpty || (whole.head? = some '0' && whole.length ≠ 1) then none
  let (frac, cs) ← fraction? cs
  let ((expText, exp), cs) ← exponent? cs
  let n := Decimal.natOfDigits whole
  let fits := if sign = [] then n < Nat.pow 2 64 else 0 < n && n ≤ Nat.pow 2 63
  if frac = [] && expText = [] && fits then
    return (.leaf (.int (if sign = [] then n else -n)), cs)
  else
    if (Decimal.Scaled.ofDigits whole (frac.drop 1) exp).overflows then return (.unusable, cs)
    else return (.leaf (.decimal (String.ofList (sign ++ whole ++ frac ++ expText))), cs)

def word? (w : String) (v : Value) (cs : List Char) : Option (Draft × List Char) :=
  let w := w.toList
  if w.isPrefixOf cs then some (.leaf v, cs.drop w.length) else none

mutual

/-- A draft inside at most `depth` more levels. Each call takes a character or passes on to a reader that
does, so `fuel` need not exceed twice the length of the text. -/
def draft? : (fuel depth : Nat) → List Char → Option (Draft × List Char)
  | 0, _, _ => none
  | fuel + 1, depth, cs =>
    match skip cs with
    | 'n' :: cs => word? "ull" .null cs
    | 't' :: cs => word? "rue" (.bool true) cs
    | 'f' :: cs => word? "alse" (.bool false) cs
    | '"' :: cs => do
      let (s, cs) ← text? fuel cs
      return (s.elim .unusable fun s => .leaf (.str s), cs)
    | '[' :: cs => do
      let (vs, cs) ←
        match skip cs with
        | ']' :: cs => some ([], cs)
        | cs => items? fuel (depth - 1) cs
      return (if depth = 0 then .unusable else .arr vs, cs)
    | '\x7b' :: cs => do
      let (fs, cs) ←
        match skip cs with
        | '\x7d' :: cs => some ([], cs)
        | cs => fields? fuel (depth - 1) cs
      return (if depth = 0 then .unusable else .obj fs, cs)
    | cs => number? cs

/-- The items of an array, up to its closing bracket. -/
def items? : (fuel depth : Nat) → List Char → Option (List Draft × List Char)
  | 0, _, _ => none
  | fuel + 1, depth, cs => do
    let (v, cs) ← draft? fuel depth cs
    match skip cs with
    | ']' :: cs => return ([v], cs)
    | ',' :: cs =>
      let (vs, cs) ← items? fuel depth cs
      return (v :: vs, cs)
    | _ => none

/-- The fields of an object, up to its closing brace. -/
def fields? : (fuel depth : Nat) → List Char → Option (List (Option String × Draft) × List Char)
  | 0, _, _ => none
  | fuel + 1, depth, cs =>
    match skip cs with
    | '"' :: cs => do
      let (k, cs) ← text? fuel cs
      match skip cs with
      | ':' :: cs =>
        let (v, cs) ← draft? fuel depth cs
        match skip cs with
        | '\x7d' :: cs => return ([(k, v)], cs)
        | ',' :: cs =>
          let (fs, cs) ← fields? fuel depth cs
          return ((k, v) :: fs, cs)
        | _ => none
      | _ => none
    | _ => none

end

end Reader

/-- The draft that a whole text spells. -/
def read? (s : String) : Option Draft := do
  let cs := s.toList
  let (v, rest) ← Reader.draft? (2 * cs.length + 2) Reader.maxDepth cs
  if (Reader.skip rest).isEmpty then return v else none

end DocComments.Value
