import DocComments.Text.Space
import DocComments.Text.Cut

/-!
# Markers on a line

A marker is a text such as `///` or `/**`. It counts where it stands free: white space or the end of the line
comes behind it, and it is not the tail of a longer run of its last character, as `*` is inside `/**`. Places
are tried from left to right, and a place that does not count hides the places that overlap it.

* `Hit`: where a marker stands, as the two sides of the line.
* `findMarker`: the first place that counts.
-/

namespace DocComments

/-- A place of a marker on a line: the text on its two sides. -/
structure Hit where
  before : String
  after : String
  deriving DecidableEq

/-- The number of bytes before the marker. -/
def Hit.offset (h : Hit) : Nat :=
  h.before.utf8ByteSize

namespace Marker

/-- Whether a marker with the last character `last` stands free between its neighbours. -/
def isFree (last : Char) (before : Option Char) (rest : List Char) : Bool :=
  rest.head?.all Text.isSpace && before != some last

/-- The two sides of the first place where `m` stands free. The first `skip` characters belong to a place
that did not count, and `before` is the character that comes before the text. -/
def seek (m : List Char) (last : Char) :
    (skip : Nat) → (before : Option Char) → List Char → Option (List Char × List Char)
  | _, _, [] => none
  | skip + 1, _, c :: cs => (seek m last skip (some c) cs).map fun (b, a) => (c :: b, a)
  | 0, before, c :: cs =>
    match Text.after? m (c :: cs) with
    | none => (seek m last 0 (some c) cs).map fun (b, a) => (c :: b, a)
    | some rest =>
      if isFree last before rest then some ([], rest)
      else (seek m last (m.length - 1) (some c) cs).map fun (b, a) => (c :: b, a)

end Marker

/-- The first place on a line where a marker stands free. The empty marker stands nowhere. -/
def findMarker (line marker : String) : Option Hit :=
  match marker.toList.getLast? with
  | none => none
  | some last =>
    (Marker.seek marker.toList last 0 none line.toList).map fun (b, a) =>
      ⟨String.ofList b, String.ofList a⟩

end DocComments
