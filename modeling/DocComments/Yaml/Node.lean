import DocComments.Yaml.Token

/-!
# Nodes of a YAML document

The tokens of a document form a tree of nodes. A node may have an anchor and a tag; a reference stands for the
node with its anchor. Where nothing is written, there is an empty scalar.

* `Yaml.Node`: a tree as it is written.
* `Yaml.Node.ofTokens?`: the tree of the only document among some tokens.
-/

namespace DocComments.Yaml

/-- What may stand before a node. -/
structure Properties where
  anchor : Option Nat := none
  tag : Option NodeTag := none

inductive Node where
  | scalar (props : Properties) (text : String) (style : Style)
  | list (props : Properties) (items : List Node)
  | map (props : Properties) (entries : List (Node × Node))
  | reference (number : Nat)
  deriving Inhabited

namespace Node

/-- What is there when nothing is written. -/
def empty (props : Properties := {}) : Node := .scalar props "" .plain

/-- The meanings of the handles of tags. -/
abbrev Handles := List (String × NodeTag)

/-- The meanings that handles have by themselves. -/
def commonHandles : Handles :=
  [("!", .mark), ("!!", .commonStart)]

/-- A tag with its handle replaced. -/
def fullTag? (hs : Handles) (handle : String) (suffix : NodeTag) : Option NodeTag :=
  if handle.isEmpty then some suffix else (hs.lookup handle).map (· ++ suffix)

/-- The anchor and the tag before a node, in either order. -/
def properties? (hs : Handles) : List Token → Option (Properties × List Token)
  | .anchor a :: .tag h s :: ts => (fullTag? hs h s).map fun t => (⟨some a, some t⟩, ts)
  | .tag h s :: .anchor a :: ts => (fullTag? hs h s).map fun t => (⟨some a, some t⟩, ts)
  | .anchor a :: ts => some (⟨some a, none⟩, ts)
  | .tag h s :: ts => (fullTag? hs h s).map fun t => (⟨none, some t⟩, ts)
  | ts => some ({}, ts)

/-- Whether a node ends before it has started: at the end of its block, or with the next entry of it. -/
def endsEntry : Token → Bool
  | .key | .value | .blockEnd => true
  | _ => false

mutual

/-- A node. A block has to be allowed, and so has a list at the indent of its key. Each call takes a token or
passes on to a reader that does, so `fuel` need not exceed three times the number of tokens. -/
def node? (hs : Handles) (block inner : Bool) : (fuel : Nat) → List Token → Option (Node × List Token)
  | 0, _ => none
  | _ + 1, .reference n :: ts => some (.reference n, ts)
  | fuel + 1, ts => do
    let (props, ts) ← properties? hs ts
    match ts with
    | .scalar text style :: ts => return (.scalar props text style, ts)
    | .flowListStart :: ts =>
      let (vs, ts) ← flowItems? hs fuel true ts
      return (.list props vs, ts)
    | .flowMapStart :: ts =>
      let (es, ts) ← flowEntries? hs fuel true ts
      return (.map props es, ts)
    | t :: rest =>
      if block && t = .blockListStart then
        let (vs, ts) ← blockItems? hs fuel rest
        return (.list props vs, ts)
      else if block && t = .blockMapStart then
        let (es, ts) ← blockEntries? hs fuel rest
        return (.map props es, ts)
      else if inner && t = .item then
        let (vs, ts) ← innerItems? hs fuel (t :: rest)
        return (.list props vs, ts)
      else if props.anchor.isSome || props.tag.isSome then return (empty props, t :: rest)
      else none
    | [] => none

/-- The items of a list, up to the end of its block. -/
def blockItems? (hs : Handles) : (fuel : Nat) → List Token → Option (List Node × List Token)
  | 0, _ => none
  | _ + 1, .blockEnd :: ts => some ([], ts)
  | fuel + 1, .item :: ts => do
    let (v, ts) ←
      match ts with
      | .item :: _ | .blockEnd :: _ => some (empty, ts)
      | ts => node? hs true false fuel ts
    let (vs, ts) ← blockItems? hs fuel ts
    return (v :: vs, ts)
  | _, _ => none

/-- The items of a list at the indent of its key, as far as there are dashes. -/
def innerItems? (hs : Handles) : (fuel : Nat) → List Token → Option (List Node × List Token)
  | 0, _ => none
  | fuel + 1, .item :: ts => do
    let (v, ts) ←
      match ts with
      | t :: rest => if t = .item || endsEntry t then some (empty, t :: rest) else node? hs true false fuel ts
      | [] => none
    let (vs, ts) ← innerItems? hs fuel ts
    return (v :: vs, ts)
  | _ + 1, ts => some ([], ts)

/-- The entries of a map, up to the end of its block. -/
def blockEntries? (hs : Handles) : (fuel : Nat) → List Token → Option (List (Node × Node) × List Token)
  | 0, _ => none
  | _ + 1, .blockEnd :: ts => some ([], ts)
  | fuel + 1, .key :: ts => do
    let (k, ts) ← entryNode? hs fuel ts
    let (v, ts) ←
      match ts with
      | .value :: ts => entryNode? hs fuel ts
      | ts => some (empty, ts)
    let (es, ts) ← blockEntries? hs fuel ts
    return ((k, v) :: es, ts)
  | _, _ => none

/-- A key or a value in a block, which may be left out. -/
def entryNode? (hs : Handles) : (fuel : Nat) → List Token → Option (Node × List Token)
  | 0, _ => none
  | fuel + 1, t :: ts => if endsEntry t then some (empty, t :: ts) else node? hs true true fuel (t :: ts)
  | _, [] => none

/-- The items of a list between brackets; commas stand between them. A key with a value is a map of one
entry, and so is a key by itself behind its mark; the token behind a mark without a key is passed over. -/
def flowItems? (hs : Handles) : (fuel : Nat) → (first : Bool) → List Token → Option (List Node × List Token)
  | 0, _, _ => none
  | _ + 1, _, .flowListEnd :: ts => some ([], ts)
  | fuel + 1, first, ts => do
    let ts ← if first then some ts else afterComma? ts
    match ts with
    | .flowListEnd :: ts => return ([], ts)
    | .key :: ts =>
      let (k, ts) ←
        match ts with
        | .value :: ts | .comma :: ts | .flowListEnd :: ts => some (empty, ts)
        | ts => node? hs false false fuel ts
      let (v, ts) ←
        match ts with
        | .value :: .comma :: ts => some (empty, .comma :: ts)
        | .value :: .flowListEnd :: ts => some (empty, .flowListEnd :: ts)
        | .value :: ts => node? hs false false fuel ts
        | ts => some (empty, ts)
      let (vs, ts) ← flowItems? hs fuel false ts
      return (.map {} [(k, v)] :: vs, ts)
    | ts =>
      let (v, ts) ← node? hs false false fuel ts
      let (vs, ts) ← flowItems? hs fuel false ts
      return (v :: vs, ts)

/-- The entries of a map between braces; commas stand between them. -/
def flowEntries? (hs : Handles) :
    (fuel : Nat) → (first : Bool) → List Token → Option (List (Node × Node) × List Token)
  | 0, _, _ => none
  | _ + 1, _, .flowMapEnd :: ts => some ([], ts)
  | fuel + 1, first, ts => do
    let ts ← if first then some ts else afterComma? ts
    match ts with
    | .flowMapEnd :: ts => return ([], ts)
    | .key :: ts =>
      let (k, ts) ←
        match ts with
        | .value :: _ | .comma :: _ | .flowMapEnd :: _ => some (empty, ts)
        | ts => node? hs false false fuel ts
      let (v, ts) ←
        match ts with
        | .value :: .comma :: ts => some (empty, .comma :: ts)
        | .value :: .flowMapEnd :: ts => some (empty, .flowMapEnd :: ts)
        | .value :: ts => node? hs false false fuel ts
        | ts => some (empty, ts)
      let (es, ts) ← flowEntries? hs fuel false ts
      return ((k, v) :: es, ts)
    | ts =>
      let (k, ts) ← node? hs false false fuel ts
      let (es, ts) ← flowEntries? hs fuel false ts
      return ((k, empty) :: es, ts)

def afterComma? : List Token → Option (List Token)
  | .comma :: ts => some ts
  | _ => none

end

/-- The directives before a document: at most one version, which is 1.1 or 1.2, and each handle once. -/
def directives? (version : Bool) (hs : Handles) : List Token → Option (Handles × List Token)
  | .version major minor :: ts =>
    if version || major ≠ 1 || (minor ≠ 1 && minor ≠ 2) then none else directives? true hs ts
  | .handle name meaning :: ts =>
    if (hs.lookup name).isSome then none else directives? version (hs ++ [(name, meaning)]) ts
  | ts => some (hs ++ commonHandles, ts)

def isDocumentMark : Token → Bool
  | .documentStart | .documentEnd | .streamEnd | .version .. | .handle .. => true
  | _ => false

/-- The node of a document whose start is marked; it may be left out. -/
def marked? (ts : List Token) : Option (Node × List Token) := do
  let (hs, ts) ← directives? false [] ts
  match ts with
  | .documentStart :: t :: ts =>
    if isDocumentMark t then some (empty, t :: ts) else node? hs true false (3 * ts.length + 4) (t :: ts)
  | _ => none

/-- The tree of the only document among some tokens. -/
def ofTokens? (ts : List Token) : Option Node := do
  let (v, ts) ←
    match ts with
    | [] => none
    | .streamEnd :: _ => some (empty, ts)
    | t :: _ =>
      if isDocumentMark t && t ≠ .documentEnd then marked? ts
      else node? commonHandles true false (3 * ts.length + 1) ts
  if ts.dropWhile (· = .documentEnd) = [.streamEnd] then some v else none

end Node

end DocComments.Yaml
