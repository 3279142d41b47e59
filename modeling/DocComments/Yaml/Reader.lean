import DocComments.Yaml
import DocComments.Yaml.Node
import DocComments.Yaml.Token.Lexer

/-!
# Reading YAML

A text is cut into tokens, these form a tree of nodes, and references in it are replaced by the nodes that
they stand for, as far as a reader asks for them. Lists and maps may be nested at most 128 deep.

* `Yaml.Node.expand`: a tree without references.
* `Yaml.read?`: the tree of a whole text.
-/

namespace DocComments.Yaml

namespace Node

mutual

/-- The nodes with an anchor, by its number, the last one first. -/
def anchored (found : List (Nat × Node)) : Node → List (Nat × Node)
  | .scalar props text style => keep props (.scalar props text style) found
  | .list props items => anchoredItems (keep props (.list props items) found) items
  | .map props entries => anchoredEntries (keep props (.map props entries) found) entries
  | .reference _ => found

def anchoredItems (found : List (Nat × Node)) : List Node → List (Nat × Node)
  | [] => found
  | v :: vs => anchoredItems (anchored found v) vs

def anchoredEntries (found : List (Nat × Node)) : List (Node × Node) → List (Nat × Node)
  | [] => found
  | (k, v) :: es => anchoredEntries (anchored (anchored found k) v) es

def keep (props : Properties) (n : Node) (found : List (Nat × Node)) : List (Nat × Node) :=
  match props.anchor with
  | some i => (i, n) :: found
  | none => found

end

mutual

/-- The number of marks that a tree takes: one for a scalar or a reference, and two around a list or a map. -/
def size : Node → Nat
  | .scalar _ _ _ => 1
  | .reference _ => 1
  | .list _ items => 2 + itemsSize items
  | .map _ entries => 2 + entriesSize entries

def itemsSize : List Node → Nat
  | [] => 0
  | v :: vs => size v + itemsSize vs

def entriesSize : List (Node × Node) → Nat
  | [] => 0
  | (k, v) :: es => size k + size v + entriesSize es

end

/-- Lists and maps beyond this depth cannot be used. -/
def maxDepth : Nat := 128

/-- What a reader asks for under a key. -/
def underKey? (w : Wanted) : (key : Yaml) → Option Wanted
  | .scalar s _ _ => w.under? s
  | _ => none

/-- A tree with its references replaced where a reader looks, and how many more may be. A node may refer to
itself, so the depth left decides where it ends. -/
def expand (found : List (Nat × Node)) : (depth budget : Nat) → Wanted → Node → Yaml × Nat
  | depth, budget, w, n =>
    let (n, budget) :=
      match n, budget with
      | .reference _, 0 => (none, 0)
      | .reference i, b + 1 => (found.lookup i, b)
      | n, b => (some n, b)
    match n, depth with
    | some (.scalar props s style), _ => (.scalar s style props.tag, budget)
    | some (.list props vs), depth + 1 =>
      let (vs, budget) := vs.foldl (fun (done, b) v =>
        let (v, b) := expand found depth b .all v
        (v :: done, b)) ([], budget)
      (.list props.tag vs.reverse, budget)
    | some (.map props es), depth + 1 =>
      let (es, budget) := es.foldl (fun (done, b) (k, v) =>
        let (k, b) := expand found depth b .all k
        let (v, b) :=
          match underKey? w k with
          | some w => expand found depth b w v
          | none => (.unusable, b)
        ((k, v) :: done, b)) ([], budget)
      (.map props.tag es.reverse, budget)
    | _, _ => (.unusable, budget)

end Node

/-- The tree of a whole text, as far as a reader asks for it. References may be followed a hundred times for each
mark of the text. -/
def read? (w : Wanted) (s : String) : Option Yaml := do
  let n ← Node.ofTokens? (← Token.ofText? s)
  return (n.expand (n.anchored []) Node.maxDepth (100 * n.size) w).1

end DocComments.Yaml
