import DocComments.Table

/-!
# Values

What an annotation says is a JSON value. The fields of an object are listed; `object` lists them by name,
which is the form that all annotations give their values in. A value that is about to be written may list them
in another order.

* `Value.object`: the object with some fields, each name once, by name.
* `Value.field?`: a field of an object.
-/

namespace DocComments

inductive Value where
  | null
  | bool (b : Bool)
  | int (n : Int)
  /-- A number with a fraction or an exponent, or one too large for a machine integer, as it was written. -/
  | decimal (literal : String)
  | str (s : String)
  | arr (items : List Value)
  | obj (fields : List (String × Value))
  deriving Inhabited

namespace Value

mutual

def beq : Value → Value → Bool
  | .null, .null => true
  | .bool a, .bool b => a == b
  | .int a, .int b => a == b
  | .decimal a, .decimal b => a == b
  | .str a, .str b => a == b
  | .arr as, .arr bs => beqItems as bs
  | .obj as, .obj bs => beqFields as bs
  | _, _ => false

def beqItems : List Value → List Value → Bool
  | [], [] => true
  | a :: as, b :: bs => beq a b && beqItems as bs
  | _, _ => false

def beqFields : List (String × Value) → List (String × Value) → Bool
  | [], [] => true
  | (k, a) :: as, (l, b) :: bs => k == l && beq a b && beqFields as bs
  | _, _ => false

end

instance : BEq Value := ⟨beq⟩

def isNull : Value → Bool
  | .null => true
  | _ => false

def str? : Value → Option String
  | .str s => some s
  | _ => none

def items? : Value → Option (List Value)
  | .arr vs => some vs
  | _ => none

def fields? : Value → Option (List (String × Value))
  | .obj fs => some fs
  | _ => none

/-- A text, or null when there is none. -/
def ofOption : Option String → Value
  | some s => .str s
  | none => .null

def ofStrings (ss : List String) : Value :=
  .arr (ss.map .str)

def ofNat (n : Nat) : Value :=
  .int n

def ofTable (t : Table Value) : Value :=
  .obj t.entries

/-- The object with the given fields, by name; of two with one name the later stays. -/
def object (fields : List (String × Value)) : Value :=
  ofTable (Table.ofList fields)

/-- The field of an object with the name `k`. A value that is no object has no fields. -/
def field? (v : Value) (k : String) : Option Value :=
  match v with
  | .obj fs => Entries.find? k fs
  | _ => none

/-- An object with `v` as its field `k`. A value that is no object stays as it is. -/
def setField (v : Value) (k : String) (x : Value) : Value :=
  match v with
  | .obj fs => .obj (Entries.insert k x fs)
  | _ => v

/-- An object without its field `k`. -/
def dropField (v : Value) (k : String) : Value :=
  match v with
  | .obj fs => .obj (Entries.erase k fs)
  | _ => v

end Value

end DocComments
