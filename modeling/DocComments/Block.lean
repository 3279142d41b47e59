import DocComments.Value

/-!
# Blocks

A block is what one comment says: a value for each annotation name, by name. Values of one name are merged
into a list.
-/

namespace DocComments

structure Block where
  table : Table Value := ∅
  deriving Inhabited

namespace Block

def ofList (es : List (String × Value)) : Block := ⟨.ofList es⟩

def get? (b : Block) (name : String) : Option Value := b.table.get? name

def contains (b : Block) (name : String) : Bool := b.table.contains name

def insert (b : Block) (name : String) (v : Value) : Block := ⟨b.table.insert name v⟩

def names (b : Block) : List String := b.table.keys

def size (b : Block) : Nat := b.table.size

def isEmpty (b : Block) : Bool := b.table.isEmpty

/-- A value as a list: the items of an array, or the value alone. -/
def asItems : Value → List Value
  | .arr vs => vs
  | v => [v]

/-- Puts a value under a name. When there is one already, the two are joined into one array. -/
def merge (b : Block) (name : String) (v : Value) : Block :=
  match b.get? name with
  | none => b.insert name v
  | some old => b.insert name (.arr (asItems old ++ asItems v))

def toValue (b : Block) : Value := .ofTable b.table

instance : BEq Block := ⟨fun a b => a.toValue == b.toValue⟩

end Block

end DocComments
