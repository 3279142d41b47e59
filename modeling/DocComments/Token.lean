import DocComments.Text.Lines

/-!
# Spans and tokens

A token is one documented unit of a file: a comment and the code below it. Each of the two is a span, a
normalized run of lines that remembers where in the file it stood.
-/

namespace DocComments

/-- A run of lines with the numbers of its first and last line, counted from 0. -/
structure Span where
  contents : List String := []
  first : Option Nat := none
  last : Option Nat := none
  /-- The blank lines that normalization dropped before the contents. -/
  offset : Nat := 0
  deriving DecidableEq, Inhabited

namespace Span

/-- The span of the lines from `first` to `last`, normalized. -/
def ofLines (first last : Option Nat) (ls : List String) : Span where
  contents := Text.normalize ls
  first := first
  last := last
  offset := (ls.takeWhile Text.isBlank).length

/-- The line of the file that the contents have at index `i`. -/
def lineNumber? (s : Span) (i : Nat) : Option Nat :=
  s.first.map (· + s.offset + i)

/-- A bound as it is written: a signed number of 64 bits, which is -1 when there is none. -/
def writtenBound (n : Option Nat) : Int :=
  n.elim (-1) fun n => Int.bmod n (Nat.pow 2 64)

/-- The span with its bounds `k` lines further down. -/
def shift (s : Span) (k : Nat) : Span :=
  { s with first := s.first.map (· + k), last := s.last.map (· + k) }

end Span

/-- The comment at the head of a file is told apart from those in its body. -/
inductive CommentKind where
  | header
  | body
  deriving DecidableEq, Inhabited

def CommentKind.name : CommentKind → String
  | .header => "header"
  | .body => "body"

structure Token where
  kind : CommentKind
  comment : Span
  code : Span
  deriving DecidableEq, Inhabited

end DocComments
