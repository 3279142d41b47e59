import DocComments.Grammar
import DocComments.Token

/-!
# The comments of a language

A language has one grammar for the comment at the head of a file and one for those in its body.
-/

namespace DocComments

structure Language where
  header : Grammar
  body : Grammar
  deriving DecidableEq, Inhabited

namespace Language

def grammar (l : Language) : CommentKind → Grammar
  | .header => l.header
  | .body => l.body

/-- Whether a text holds the markers of either grammar. -/
def appearsIn (l : Language) (text : String) : Bool :=
  l.header.appearsIn text || l.body.appearsIn text

/-- The markers that start a line of a comment. -/
def lineMarkers (l : Language) : List String :=
  [l.header, l.body].filterMap Grammar.lineMarker?

end Language

end DocComments
