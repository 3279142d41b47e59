import DocComments.Text.Cut
import DocComments.Text.Quoted
import DocComments.Text.Space

/-!
# Comment grammars

A grammar says how the comments of a language look: line by line behind one marker, or between two
delimiters, where the single marker may then stand before each line. It also says which sigil introduces an
annotation.

* `Grammar`: the markers and sigils.
* `Grammar.Shape`: which of the two forms a grammar has.
* `Grammar.check`: what a grammar needs to be scanned.
-/

namespace DocComments

structure Grammar where
  /-- Starts each line of a comment, or each line inside the delimiters. -/
  single : Option String := none
  opening : Option String := none
  closing : Option String := none
  /-- Introduces an annotation. -/
  sigil : String := "@"
  /-- Introduces an annotation inside code. -/
  inlineSigil : Option String := none
  deriving DecidableEq, Inhabited

/-- Why a grammar cannot be scanned. -/
inductive GrammarFault where
  | emptySigil
  | unpaired (opening closing : Option String)
  | noMarkers
  | shortDelimiters (opening closing single : String)
  deriving DecidableEq

def GrammarFault.reason : GrammarFault → String
  | .emptySigil => "the annotation prefix can't be empty"
  | .unpaired o c =>
    "'start' and 'end' must be set together (start: " ++ Text.quote? o ++ ", end: " ++ Text.quote? c ++ ")"
  | .noMarkers => "needs a 'single' marker or both 'start' and 'end'"
  | .shortDelimiters o c s => "'" ++ o ++ "'/'" ++ c ++ "' must be longer than the single marker '" ++ s ++ "'"

def GrammarFault.message (f : GrammarFault) : String :=
  "invalid comment grammar: " ++ f.reason

namespace Grammar

/-- A marker that is set and not empty. -/
def nonEmpty (m : Option String) : Option String :=
  m.filter (! ·.isEmpty)

/-- The grammar of comments behind one marker. -/
def ofSingle (m : String) : Grammar := { single := some m }

/-- The grammar of comments between two delimiters. -/
def ofDelimiters (o c : String) : Grammar := { opening := some o, closing := some c }

def withSingle (g : Grammar) (m : String) : Grammar := { g with single := nonEmpty (some m) }

def withSigil (g : Grammar) (s : String) : Grammar := { g with sigil := s }

def withInlineSigil (g : Grammar) (s : String) : Grammar := { g with inlineSigil := nonEmpty (some s) }

/-- The two forms of a comment. -/
inductive Shape where
  /-- Each line of the comment starts with the marker. -/
  | lines (marker : Option String)
  | delimited (opening closing : String)
  deriving DecidableEq

/-- Delimiters win over the single marker when there are both. -/
def shape (g : Grammar) : Shape :=
  match g.opening, g.closing with
  | some o, some c => .delimited o c
  | _, _ => .lines g.single

def isDelimited (g : Grammar) : Bool :=
  g.opening.isSome && g.closing.isSome

/-- Whether a comment opens and closes with the same text. -/
def isSymmetric (g : Grammar) : Bool :=
  g.isDelimited && g.opening == g.closing

/-- Whether a text holds the markers that comments need, wherever they stand. -/
def appearsIn (g : Grammar) (text : String) : Bool :=
  match g.shape with
  | .delimited o c => Text.contains text o && Text.contains text c
  | .lines m => m.any (Text.contains text)

/-- The grammar without its empty markers. -/
def cleaned (g : Grammar) : Grammar :=
  { g with
    single := nonEmpty g.single
    opening := nonEmpty g.opening
    closing := nonEmpty g.closing
    inlineSigil := nonEmpty g.inlineSigil }

/-- What keeps a grammar from being scanned, if anything: an empty sigil, one delimiter without the other, no
marker at all, or a delimiter that is not longer than the single marker. Empty markers count as not set. -/
def fault? (g : Grammar) : Option GrammarFault :=
  if g.sigil.isEmpty then some .emptySigil
  else
    match nonEmpty g.opening, nonEmpty g.closing, nonEmpty g.single with
    | some o, none, _ => some (.unpaired (some o) none)
    | none, some c, _ => some (.unpaired none (some c))
    | none, none, none => some .noMarkers
    | none, none, some _ => none
    | some _, some _, none => none
    | some o, some c, some s =>
      if o.utf8ByteSize ≤ s.utf8ByteSize || c.utf8ByteSize ≤ s.utf8ByteSize then
        some (.shortDelimiters o c s)
      else none

/-- A grammar that can be scanned passes. -/
def check (g : Grammar) : Except GrammarFault Unit :=
  match g.fault? with
  | some f => .error f
  | none => .ok ()

/-- What a line of a comment starts with: the single marker, or else the opening delimiter. -/
def lineMarker? (g : Grammar) : Option String :=
  g.single <|> g.opening

end Grammar

end DocComments
