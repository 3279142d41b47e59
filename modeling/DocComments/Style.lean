import DocComments.Table
import DocComments.Text.Cut
import DocComments.Text.Space

/-!
# Comment styles

A style says what is special about the comments of some languages; what it leaves out comes from another
style. Styles are kept under lists of languages such as `rb, py`. The style `_` is the fallback of all.

* `Style.filledFrom`: a style with its gaps filled from another.
* `Style.builtin`: the styles that are always there.
* `Style.expand`: one entry per language.
-/

namespace DocComments

/-- The markers of one kind of comment, as a style gives them. -/
structure Markers where
  opening : Option String := none
  single : Option String := none
  closing : Option String := none
  deriving DecidableEq, Inhabited

structure Style where
  sigil : Option String := none
  inlineSigil : Option String := none
  header : Option Markers := none
  body : Option Markers := none
  /-- The language whose style fills the gaps, in place of the fallback. -/
  extend : Option String := none
  deriving DecidableEq, Inhabited

namespace Style

/-- The language of the fallback style. -/
def fallback : String := "_"

/-- The style with its gaps filled from `base`. -/
def filledFrom (s base : Style) : Style where
  sigil := s.sigil <|> base.sigil
  inlineSigil := s.inlineSigil <|> base.inlineSigil
  header := s.header <|> base.header
  body := s.body <|> base.body

/-- Comments behind the marker `m`. -/
def behind (m : String) : Markers := { single := some m }

/-- Comments between two delimiters. -/
def between (o c : String) : Markers := { opening := some o, closing := some c }

/-- Comments between two delimiters, with the marker `m` before each line. -/
def framed (o m c : String) : Markers := { opening := some o, single := some m, closing := some c }

/-- The styles that are always there, by list of languages. -/
def builtin : Table Style := .ofList
  [(fallback,
     { sigil := some "@", inlineSigil := some "#",
       header := some (framed "////" "///" "////"), body := some (behind "///") }),
   ("css", { header := some (framed "/***" "*" "***/"), body := some (framed "/**" "*" "**/") }),
   ("rb, py, coffee, sh, bash, pl",
     { header := some (framed "###" "##" "###"), body := some (behind "##") }),
   ("html, md, markdown, mark, mdown, mkdn, mdml, mkd, mdwn, mdtxt, mdtext, text",
     { header := some (between "<!----" "---->"), body := some (between "<!---" "--->") }),
   ("jade", { header := some (framed "//-//" "//-/" "//-//"), body := some (behind "//-/") }),
   ("cfm", { header := some (between "<!-----" "----->"), body := some (between "<!----" "---->") })]

/-- The languages that a key lists. -/
def languages (key : String) : List String :=
  ((Text.splitOnChar key ',').map Text.trim).filter (! ·.isEmpty)

/-- One entry per language. Where two keys list one language, the later key counts. -/
def expand (styles : Table Style) : Table Style :=
  .ofList (styles.entries.flatMap fun (key, style) => (languages key).map (·, style))

end Style

end DocComments
