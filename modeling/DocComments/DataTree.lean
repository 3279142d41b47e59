import DocComments.Value

/-!
# Data in several formats

Configurations and collections are read from trees of data. A format offers them through one interface, and
records are read from that: a field may stand once, under one of its names.

* `DataTree`: what a format has to offer.
* `Wanted`: what a reader asks for.
* `DataTree.once`, `DataTree.optional`: the fields of a record.
-/

namespace DocComments

/-- Data in some format. -/
class DataTree (ν : Type) where
  /-- Whether nothing is meant. Data that has to be null, and is not, gives no answer. -/
  null? : ν → Option Bool
  nat? : ν → Option Nat
  bool? : ν → Option Bool
  text? : ν → Option String
  fields? : ν → Option (List (String × ν))
  /-- The items of a list that may stand for a record, field by field. -/
  record? : ν → Option (List ν)
  value? : ν → Option Value

/-- What a reader asks for in a tree: all of it, or of a map the entries with some keys, and perhaps the others. -/
inductive Wanted where
  | all
  | entries (known : List (String × Wanted)) (others : Option Wanted)

/-- What a reader asks for under a key; nothing when it passes the entry over. -/
def Wanted.under? (key : String) : Wanted → Option Wanted
  | .all => some .all
  | .entries known others => known.lookup key <|> others

namespace DataTree

variable {ν α : Type} [DataTree ν]

/-- A field that may stand once, under one of some names: what it holds, read by `read?`, or nothing. -/
def once (fs : List (String × ν)) (names : List String) (read? : ν → Option α) : Option (Option α) :=
  match fs.filter fun f => names.contains f.1 with
  | [] => some none
  | [(_, v)] => (read? v).map some
  | _ => none

/-- A field that has to stand once. -/
def required (fs : List (String × ν)) (name : String) (read? : ν → Option α) : Option α :=
  (once fs [name] read?).join

/-- Null stands for nothing. -/
def orNull (read? : ν → Option α) (v : ν) : Option (Option α) :=
  match null? v with
  | some true => some none
  | some false => (read? v).map some
  | none => none

/-- A field that may be left out or null. -/
def optional (fs : List (String × ν)) (names : List String) (read? : ν → Option α) : Option (Option α) :=
  (once fs names (orNull read?)).map Option.join

/-- The fields of a record. They may be listed without their names, in the order of `names`. -/
def fieldsOf? (names : List String) (v : ν) : Option (List (String × ν)) :=
  match fields? v with
  | some fs => some fs
  | none =>
    match record? v with
    | some vs => if vs.length ≤ names.length then some (names.zip vs) else none
    | none => none

/-- A table of what the fields hold; of two with one name the later stays. -/
def table? (read? : ν → Option α) (v : ν) : Option (Table α) := do
  let fs ← fields? v
  return .ofList (← fs.mapM fun (k, v) => (read? v).map (k, ·))

end DataTree

end DocComments
