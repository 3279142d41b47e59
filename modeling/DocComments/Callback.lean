import DocComments.Tag
import DocComments.Block
import DocComments.Diagnostic.Snippet
import DocComments.Diagnostic
import DocComments.SourceFile

/-!
# Callbacks

An annotation is given its meaning by callbacks: `parse` turns it into a value, `autofill` supplies a value
that a block lacks, and `resolve` reworks a value once the block is there. A `parse` callback is a script: it
may tell of events and add further annotations to the block before it ends.

* `Place`: where a callback works.
* `Script`: what a `parse` callback does.
* `Outcome`: what the other two do.
-/

namespace DocComments

/-- Why a callback failed: its message, below those of the callbacks that passed it on. -/
abbrev Failure := List String

/-- Where a callback works: the comment, the code below it, and the file. -/
structure Place where
  comment : Span
  code : Span
  kind : CommentKind
  file : SourceFile
  deriving Inhabited

/-- What a `parse` callback sees. -/
structure ParseContext where
  tag : Tag
  place : Place
  /-- What the definition for all files made of the annotation, for one that overrides it. -/
  default : Option Value := none

namespace ParseContext

variable (c : ParseContext)

/-- The line of the annotation's head in the file, counted from 1. -/
def lineNumber? : Option Nat :=
  (c.place.comment.lineNumber? (c.tag.first.getD 0)).map (· + 1)

/-- The snippet of an annotation that stands in the comment. -/
def snippet? (expected : List String) : Option String :=
  match c.tag.first, c.tag.last with
  | some first, some last =>
    let s : Snippet :=
      { path := c.place.file.path
        marker := ((c.place.file.language.grammar c.place.kind).lineMarker?).getD ""
        comment := c.place.comment
        code := c.place.code
        first := first
        last := last
        expected := expected }
    some (s.render .plain)
  | _, _ => none

/-- A warning about the annotation, with what its lines should have been. -/
def warning (message : String) (expected : List String) : Event where
  level := .warning
  diagnostic :=
    { message := message
      file := some c.place.file.path
      line := c.lineNumber?
      snippet := c.snippet? expected }

end ParseContext

/-- What a `parse` callback does. Where it adds an annotation, it goes on with what came of it. -/
inductive Script (α : Type) where
  | done (a : α)
  | fail (f : Failure)
  | emit (e : Event) (next : Script α)
  | add (name text : String) (next : Except Failure (Option Value) → Script α)

namespace Script

variable {α β : Type}

def bind : Script α → (α → Script β) → Script β
  | .done a, k => k a
  | .fail f, _ => .fail f
  | .emit e s, k => .emit e (s.bind k)
  | .add name text next, k => .add name text fun r => (next r).bind k

instance : Monad Script where
  pure := .done
  bind := bind

/-- Tells of an event. -/
def tell (e : Event) : Script Unit := .emit e (.done ⟨⟩)

/-- Adds an annotation, and fails when that does. -/
def addOrFail (name text : String) : Script (Option Value) :=
  .add name text fun
    | .ok v => .done v
    | .error f => .fail f

end Script

/-- What an `autofill` callback sees. -/
structure AutofillContext where
  name : String
  place : Place
  /-- The block as far as it goes. -/
  parsed : Block

/-- Where an annotation stands in its comment. -/
structure Position where
  name : String
  first : Option Nat
  last : Option Nat
  deriving DecidableEq, Inhabited

/-- What a `resolve` callback sees. -/
structure ResolveContext where
  name : String
  aliases : List String
  place : Place
  parsed : Block
  /-- The annotations of the comment, in order. -/
  tags : List Position

/-- The annotations of one name, in order. -/
def ResolveContext.positions (c : ResolveContext) (name : String) : List Position :=
  c.tags.filter (·.name = name)

/-- What came of a callback: the events that it told of, and its result. -/
structure Outcome (α : Type) where
  events : List Event := []
  result : Except Failure α

def Outcome.ok {α : Type} (a : α) : Outcome α := { result := .ok a }

abbrev ParseCallback := ParseContext → Script Value

abbrev AutofillCallback := AutofillContext → Outcome (Option Value)

abbrev ResolveCallback := Value → ResolveContext → Outcome (Option Value)

end DocComments
