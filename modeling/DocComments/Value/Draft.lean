import DocComments.DataTree

/-!
# Values as they are written

A JSON text lists the fields of an object as they come, repeated names included, and may hold what no value
can: a number that is too large, a text with half a character, or what is nested too deeply. Such a part may be
passed over, but not used.

* `Draft`: a value as it is written.
* `Draft.value?`: the value that it spells.
* `Draft.ofValue`: the draft that spells a value.
-/

namespace DocComments

inductive Draft where
  /-- A value without parts. -/
  | leaf (v : Value)
  | arr (items : List Draft)
  /-- An object. A name may be one that cannot be used. -/
  | obj (fields : List (Option String × Draft))
  /-- What cannot be used. -/
  | unusable
  deriving Inhabited

namespace Draft

mutual

/-- The value that a draft spells, with the fields of objects by name; of two with one name the later stays. -/
def value? : Draft → Option Value
  | .leaf v => some v
  | .arr items => (itemValues? items).map .arr
  | .obj fields => (fieldValues? fields).map .object
  | .unusable => none

def itemValues? : List Draft → Option (List Value)
  | [] => some []
  | v :: vs => do return (← value? v) :: (← itemValues? vs)

def fieldValues? : List (Option String × Draft) → Option (List (String × Value))
  | [] => some []
  | (k, v) :: fs => do return (← k, ← value? v) :: (← fieldValues? fs)

end

mutual

/-- The draft that spells a value. -/
def ofValue : Value → Draft
  | .arr vs => .arr (ofItems vs)
  | .obj fs => .obj (ofFields fs)
  | v => .leaf v

def ofItems : List Value → List Draft
  | [] => []
  | v :: vs => ofValue v :: ofItems vs

def ofFields : List (String × Value) → List (Option String × Draft)
  | [] => []
  | (k, v) :: fs => (some k, ofValue v) :: ofFields fs

end

def items? : Draft → Option (List Draft)
  | .arr items => some items
  | _ => none

/-- The fields of an object, whose names can all be used. -/
def fields? : Draft → Option (List (String × Draft))
  | .obj fields => fields.mapM fun (k, v) => k.map (·, v)
  | _ => none

instance : DataTree Draft where
  null?
    | .leaf v => some v.isNull
    | _ => some false
  nat?
    | .leaf (.int n) => if 0 ≤ n then some n.toNat else none
    | _ => none
  bool?
    | .leaf (.bool b) => some b
    | _ => none
  text?
    | .leaf v => v.str?
    | _ => none
  fields? := fields?
  record? := items?
  value? := value?

end Draft

end DocComments
