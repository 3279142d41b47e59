import DocComments.Config
import DocComments.DataTree

/-!
# Configurations as data

A configuration is an object with some known keys. A known key may stand only once and has to hold what its
field can hold; all other keys are kept. Inside a style, keys without a meaning are dropped.

* `Config.decode?`: the configuration that a tree spells.
* `Config.wanted`: what is looked at for that.
* `Config.encode`: the object that spells a configuration.
-/

namespace DocComments

namespace Config

open DataTree

variable {ν : Type} [DataTree ν]

def decodeMarkers? (v : ν) : Option Markers := do
  let fs ← fieldsOf? ["start", "single", "end"] v
  return {
    opening := ← optional fs ["start"] DataTree.text?
    single := ← optional fs ["single", "line"] DataTree.text?
    closing := ← optional fs ["end"] DataTree.text? }

def decodeStyle? (v : ν) : Option Style := do
  let fs ← fieldsOf? ["prefix", "inline_prefix", "header", "body", "extend"] v
  return {
    sigil := ← optional fs ["prefix"] DataTree.text?
    inlineSigil := ← optional fs ["inline_prefix"] DataTree.text?
    header := ← optional fs ["header"] decodeMarkers?
    body := ← optional fs ["body"] decodeMarkers?
    extend := ← optional fs ["extend"] DataTree.text? }

/-- Styles by list of languages. -/
def decodeStyles? (v : ν) : Option (Table Style) :=
  table? decodeStyle? v

/-- A number of at most 64 bits. -/
def size? (v : ν) : Option Nat :=
  (DataTree.nat? v).filter (· < Nat.pow 2 64)

/-- The keys with a meaning. -/
def knownKeys : List String := ["blank_lines", "max_add_depth", "warnings", "comments"]

/-- The configuration that a tree spells. -/
def decode? (v : ν) : Option Config := do
  let fs ← DataTree.fields? v
  let blankLines ← once fs ["blank_lines"] size?
  let maxAddDepth ← once fs ["max_add_depth"] size?
  let warnings ← once fs ["warnings"] DataTree.bool?
  let styles ← once fs ["comments"] decodeStyles?
  let unknown ← (fs.filter (! knownKeys.contains ·.1)).mapM fun (k, v) => (DataTree.value? v).map (k, ·)
  return {
    blankLines := blankLines.getD 4
    maxAddDepth := maxAddDepth.getD 8
    warnings := warnings.getD true
    styles := styles.getD ∅
    unknown := .ofList unknown }

def markersWanted : Wanted :=
  .entries (["start", "single", "line", "end"].map (·, .all)) none

def styleWanted : Wanted :=
  .entries
    ([("header", markersWanted), ("body", markersWanted)] ++ ["prefix", "inline_prefix", "extend"].map (·, .all))
    none

/-- What a configuration is made of. Inside a style, other keys are not looked at. -/
def wanted : Wanted :=
  .entries [("comments", .entries [] (some styleWanted))] (some .all)

/-- A field that is there only with a value. -/
def encodeOptional (k : String) (v : Option Value) : List (String × Value) :=
  (v.map (k, ·)).toList

def encodeMarkers (m : Markers) : Value :=
  .obj (encodeOptional "start" (m.opening.map .str) ++ encodeOptional "single" (m.single.map .str) ++
    encodeOptional "end" (m.closing.map .str))

def encodeStyle (s : Style) : Value :=
  .obj (encodeOptional "prefix" (s.sigil.map .str) ++
    encodeOptional "inline_prefix" (s.inlineSigil.map .str) ++
    encodeOptional "header" (s.header.map encodeMarkers) ++
    encodeOptional "body" (s.body.map encodeMarkers) ++ encodeOptional "extend" (s.extend.map .str))

def encodeStyles (t : Table Style) : Value :=
  .ofTable (t.map fun _ s => encodeStyle s)

/-- The object that spells a configuration, with its fields in a fixed order and the other keys behind. -/
def encode (c : Config) : Value :=
  .obj ([("blank_lines", .ofNat c.blankLines), ("max_add_depth", .ofNat c.maxAddDepth),
    ("warnings", .bool c.warnings)] ++
    (if c.styles.isEmpty then [] else [("comments", encodeStyles c.styles)]) ++ c.unknown.entries)

end Config

end DocComments
