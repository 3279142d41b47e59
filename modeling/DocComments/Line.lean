import DocComments.Grammar
import DocComments.Grammar.Marker

/-!
# Lines of a source file

A line is read through a grammar: where its markers stand, and whether there is code before the first of
them.
-/

namespace DocComments

structure Line where
  number : Nat
  text : String
  single : Option Hit
  opening : Option Hit
  closing : Option Hit

namespace Line

def read (g : Grammar) (number : Nat) (text : String) : Line where
  number := number
  text := text
  single := g.single.bind (findMarker text)
  opening := g.opening.bind (findMarker text)
  closing := g.closing.bind (findMarker text)

def indent (l : Line) : Nat := Text.indent l.text

def isBlank (l : Line) : Bool := Text.isBlank l.text

/-- The places of the markers, whichever there are. -/
def hits (l : Line) : List Hit :=
  [l.single, l.opening, l.closing].filterMap id

def hasComment (l : Line) : Bool := ! l.hits.isEmpty

/-- The leftmost of some places. -/
def leftmost? : List Hit → Option Hit
  | [] => none
  | h :: hs =>
    match leftmost? hs with
    | none => some h
    | some h' => if h.offset ≤ h'.offset then some h else some h'

/-- Whether something other than white space stands before the first marker. -/
def hasCode (l : Line) : Bool :=
  ! l.isBlank && (leftmost? l.hits).all (! Text.isBlank ·.before)

end Line

end DocComments
