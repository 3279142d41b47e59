import DocComments.Language
import DocComments.Style

/-!
# Resolving comment styles

The styles of a user are laid over the built-in ones, and each language gets its two grammars: what its style
leaves out comes from the style that it extends, and so on along the chain, and last from the fallback.

* `StyleFault`: why styles do not resolve.
* `LanguageTable`: the grammars of each language.
* `LanguageTable.resolve`: the table of some styles.
-/

namespace DocComments

/-- Why styles do not resolve. -/
inductive StyleFault where
  | missingTarget (language target : String)
  | loop (language : String)
  | noMarkers (language : String) (kind : CommentKind)
  | grammar (language : String) (kind : CommentKind) (fault : GrammarFault)
  deriving DecidableEq

def StyleFault.reason : StyleFault → String
  | .missingTarget l t => "'" ++ l ++ "' extends the '" ++ t ++ "' comment style, which doesn't exist"
  | .loop l => "'extend' loops back to '" ++ l ++ "'"
  | .noMarkers l k => "'" ++ l ++ "' has no " ++ k.name ++ " comment markers"
  | .grammar l k f => k.name ++ " comments of '" ++ l ++ "': " ++ f.message

/-- The grammars of each language, and those of all others. -/
structure LanguageTable where
  fallback : Language
  languages : Table Language

namespace LanguageTable

/-- The built-in styles with those of a user laid over them. A user's fallback style only fills in what it
sets. -/
def overlay (user : Table Style) : Table Style :=
  (Style.expand user).entries.foldl
    (fun raw (language, style) =>
      let style :=
        if language = Style.fallback then
          match raw.get? Style.fallback with
          | some base => style.filledFrom base
          | none => style
        else style
      raw.insert language style)
    (Style.expand Style.builtin)

/-- A style with its gaps filled along its chain. A chain with more than `budget` steps comes back to where
it was. -/
def flatten (raw : Table Style) (fallback : Style) :
    (budget : Nat) → (language : String) → Style → Except StyleFault Style
  | budget, language, style =>
    match style.extend with
    | none => .ok (style.filledFrom fallback)
    | some target =>
      match budget with
      | 0 => .error (.loop language)
      | budget + 1 =>
        if target = Style.fallback then .ok (style.filledFrom fallback)
        else
          match raw.get? target with
          | none => .error (.missingTarget language target)
          | some next => (flatten raw fallback budget target next).map style.filledFrom

/-- The grammar of one kind of comment. -/
def grammar (language : String) (style : Style) (kind : CommentKind) (markers : Option Markers) :
    Except StyleFault Grammar :=
  match markers with
  | none => .error (.noMarkers language kind)
  | some m =>
    let g := Grammar.cleaned
      { single := m.single, opening := m.opening, closing := m.closing,
        sigil := style.sigil.getD "@", inlineSigil := style.inlineSigil }
    match g.fault? with
    | some f => .error (.grammar language kind f)
    | none => .ok g

/-- The two grammars of a language; the header's faults come first. -/
def build (language : String) (style : Style) : Except StyleFault Language := do
  let header ← grammar language style .header style.header
  let body ← grammar language style .body style.body
  return { header := header, body := body }

/-- The language of each style, in order; the first fault counts. -/
def buildAll (raw : Table Style) (fallback : Style) :
    List (String × Style) → Except StyleFault (List (String × Language))
  | [] => .ok []
  | (language, style) :: es => do
    let style ← flatten raw fallback raw.size language style
    let built ← build language style
    let rest ← buildAll raw fallback es
    return (language, built) :: rest

/-- The table of a user's styles over the built-in ones. -/
def resolve (user : Table Style) : Except StyleFault LanguageTable := do
  let raw := overlay user
  let fallback := (raw.get? Style.fallback).getD {}
  let base ← build Style.fallback fallback
  let languages ← buildAll raw fallback (raw.entries.filter (·.1 ≠ Style.fallback))
  return { fallback := base, languages := .ofList languages }

/-- The grammars for a file type. -/
def forFiletype (t : LanguageTable) (filetype : String) : Language :=
  (t.languages.get? filetype).getD t.fallback

end LanguageTable

end DocComments
