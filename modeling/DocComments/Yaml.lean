import DocComments.DataTree
import DocComments.Value.Reader
import DocComments.Yaml.NodeTag
import DocComments.Yaml.Scalar

/-!
# YAML

A YAML document is a tree of scalars, lists and maps. A scalar without quotes may stand for null, a flag or a
number, by its spelling; a tag may ask for one of those. Tags of the user's own have no meaning here.

* `Yaml`: the tree.
* `Yaml.Spelling`: what scalars without quotes stand for.
* `Yaml.value?`: the value of a tree.
-/

namespace DocComments

/-- A tree. -/
inductive Yaml where
  | scalar (text : String) (style : Yaml.Style) (tag : Option Yaml.NodeTag)
  | list (tag : Option Yaml.NodeTag) (items : List Yaml)
  | map (tag : Option Yaml.NodeTag) (entries : List (Yaml × Yaml))
  /-- What was not asked for, lies too deep or was repeated too often. It may be passed over, but has no value. -/
  | unusable
  deriving Inhabited

namespace Yaml

namespace Spelling

def isNull (s : String) : Bool :=
  ["~", "null", "Null", "NULL"].contains s

def bool? (s : String) : Option Bool :=
  if ["true", "True", "TRUE"].contains s then some true
  else if ["false", "False", "FALSE"].contains s then some false
  else none

/-- Digits of a base, as a number. -/
def digits? (base : Nat) (cs : List Char) : Option Nat :=
  if cs.isEmpty then none
  else
    cs.foldl
      (fun n c => do
        let n ← n
        let d ← Quoted.hexValue? c
        if d < base then some (base * n + d) else none)
      (some 0)

/-- Digits behind a leading zero are a text. -/
def isZeroPadded : List Char → Bool
  | '0' :: c :: cs => (c :: cs).all Char.isDigit
  | _ => false

/-- A number without a sign: decimal, or behind `0x`, `0o` or `0b`. -/
def unsigned? : List Char → Option Nat
  | '0' :: 'x' :: cs => digits? 16 cs
  | '0' :: 'o' :: cs => digits? 8 cs
  | '0' :: 'b' :: cs => digits? 2 cs
  | cs => if isZeroPadded cs then none else digits? 10 cs

def nat? (s : String) : Option Nat :=
  match s.toList with
  | '+' :: cs => unsigned? cs
  | cs => unsigned? cs

def int? (s : String) : Option Int :=
  match s.toList with
  | '-' :: cs => (unsigned? cs).map fun n => -(n : Int)
  | _ => (nat? s).map fun n => (n : Int)

def isNotFinite (s : String) : Bool :=
  [".inf", ".Inf", ".INF", "+.inf", "+.Inf", "+.INF", "-.inf", "-.Inf", "-.INF", ".nan", ".NaN", ".NAN"].contains s

/-- A decimal number, perhaps with a fraction and an exponent, as JSON spells it. It may not be too large. -/
def decimalText? (s : String) : Option String :=
  let (sign, cs) :=
    match s.toList with
    | '+' :: cs => ([], cs)
    | '-' :: cs => (['-'], cs)
    | cs => ([], cs)
  let (whole, rest) := cs.span Char.isDigit
  let (frac, rest) :=
    match rest with
    | '.' :: rest => rest.span Char.isDigit
    | rest => ([], rest)
  match Value.Reader.exponent? rest with
  | some ((text, e), []) =>
    let m := Decimal.natOfDigits (whole ++ frac)
    if (whole.isEmpty && frac.isEmpty) || Decimal.overflows m (e - frac.length) then none
    else
      let whole := Nat.toDigits 10 (Decimal.natOfDigits whole)
      some (String.ofList (sign ++ whole ++ (if frac.isEmpty then [] else '.' :: frac) ++ text))
  | _ => none

/-- A number with a fraction. One that is not finite stands for null. -/
def decimal? (s : String) : Option Value :=
  if isNotFinite s then some .null else (decimalText? s).map .decimal

/-- Whether a number fits `low` bits below zero and `high` bits above. -/
def inBits (low high : Nat) (n : Int) : Bool :=
  if n < 0 then n.natAbs ≤ Nat.pow 2 low else n.toNat < Nat.pow 2 high

/-- An integer of at most 128 bits. -/
def wide? (s : String) : Option Int :=
  (int? s).filter (inBits 127 128)

/-- The value of an integer, which has at most 64 bits. -/
def integer? (n : Int) : Option Value :=
  if inBits 63 64 n then some (.int n) else none

/-- Whether digits follow a leading zero, perhaps behind a sign. -/
def isPadded (s : String) : Bool :=
  match s.toList with
  | '-' :: cs => isZeroPadded cs
  | '+' :: cs => isZeroPadded cs
  | cs => isZeroPadded cs

/-- What a plain scalar stands for. An integer of 65 to 128 bits has no value. -/
def value? (s : String) : Option Value :=
  if s.isEmpty || isNull s then some .null
  else
    match bool? s, wide? s with
    | some b, _ => some (.bool b)
    | none, some n => integer? n
    | none, none => if isPadded s then some (.str s) else some ((decimal? s).getD (.str s))

end Spelling

/-- What a scalar stands for without a tag. Only a plain one can be something else than a text. -/
def untaggedValue? (text : String) (style : Style) : Option Value :=
  if style = .plain then Spelling.value? text else some (.str text)

/-- The value of a scalar. A tag with an exclamation mark that is no text says nothing about it. -/
def scalarValue? (text : String) (style : Style) : (tag : Option NodeTag) → Option Value
  | none => untaggedValue? text style
  | some tag =>
    if tag.isOwn then none
    else if tag.startsWithMark then untaggedValue? text style
    else if tag = .common "bool" then (Spelling.bool? text).map .bool
    else if tag = .common "int" then (Spelling.wide? text).bind Spelling.integer?
    else if tag = .common "float" then Spelling.decimal? text
    else if tag = .common "null" then if Spelling.isNull text then some .null else none
    else some (.str text)

/-- Whether nothing is meant: a plain scalar without a tag that is empty or spells null, or one tagged null, which
has to spell it. -/
def null? : Yaml → Option Bool
  | .scalar s .plain tag =>
    if tag = some (.common "null") then if Spelling.isNull s then some true else none
    else some (tag.isNone && (s.isEmpty || Spelling.isNull s))
  | _ => some false

/-- A scalar as a text, whatever its tag. -/
def text? : Yaml → Option String
  | .scalar s _ _ => some s
  | _ => none

/-- The fields of a map. Where nothing is written, there are none. -/
def fields? : Yaml → Option (List (String × Yaml))
  | .map _ es => es.mapM fun (k, v) => k.text?.map (·, v)
  | .scalar "" .plain _ => some []
  | _ => none

/-- The text of a scalar that may stand for something else: a plain one, or a literal with the tag for it. -/
def spelled? (name : String) : Yaml → Option String
  | .scalar s .plain _ => some s
  | .scalar s .literal tag => if tag = some (.common name) then some s else none
  | _ => none

mutual

/-- The value of a tree. Keys have to be texts. -/
def value? : Yaml → Option Value
  | .scalar s style tag => scalarValue? s style tag
  | .list tag items => if tag.any (·.isOwn) then none else (itemValues? items).map .arr
  | .map tag es => if tag.any (·.isOwn) then none else (fieldValues? es).map fun fs => .object fs
  | .unusable => none

def itemValues? : List Yaml → Option (List Value)
  | [] => some []
  | v :: vs => do return (← value? v) :: (← itemValues? vs)

def fieldValues? : List (Yaml × Yaml) → Option (List (String × Value))
  | [] => some []
  | (k, v) :: es => do
    let .str k ← value? k | none
    return (k, ← value? v) :: (← fieldValues? es)

end

instance : DataTree Yaml where
  null? := null?
  nat? v := (spelled? "int" v).bind Spelling.nat?
  bool? v := (spelled? "bool" v).bind Spelling.bool?
  text? := text?
  fields? := fields?
  record? _ := none
  value? := value?

end Yaml

end DocComments
