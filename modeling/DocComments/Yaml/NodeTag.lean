/-!
# Tags of YAML nodes

A tag says what a node stands for. It is a sequence of bytes, most of them characters; others may be written by
their numbers, so that it need not be a text.

* `Yaml.NodeTag`: the bytes of a tag.
* `Yaml.NodeTag.common`: the tags that all documents share.
* `Yaml.NodeTag.isOwn`: whether a tag is one of the user's own.
-/

namespace DocComments.Yaml

structure NodeTag where
  bytes : List UInt8
  deriving DecidableEq, Inhabited

namespace NodeTag

/-- The tag with some bytes. A zero ends it. -/
def ofBytes (bs : List UInt8) : NodeTag := ⟨bs.takeWhile (· ≠ 0)⟩

def ofString (s : String) : NodeTag := ofBytes s.toUTF8.data.toList

instance : Append NodeTag := ⟨fun a b => ⟨a.bytes ++ b.bytes⟩⟩

def isEmpty (t : NodeTag) : Bool := t.bytes.isEmpty

/-- The exclamation mark by itself. -/
def mark : NodeTag := ofString "!"

/-- What the tags that all documents share start with. -/
def commonStart : NodeTag := ofString "tag:yaml.org,2002:"

/-- A tag that all documents share. -/
def common (name : String) : NodeTag := commonStart ++ ofString name

def startsWithMark (t : NodeTag) : Bool :=
  t.bytes.head? = mark.bytes.head?

/-- Whether a tag is one of the user's own: a text that starts with an exclamation mark. -/
def isOwn (t : NodeTag) : Bool :=
  t.startsWithMark && (String.fromUTF8? ⟨t.bytes.toArray⟩).isSome

end NodeTag

end DocComments.Yaml
