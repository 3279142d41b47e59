import DocComments.Grammar
import DocComments.Grammar.Marker
import DocComments.Token

/-!
# Scanning a file for comments

The lines of a file are read one by one. A comment opens at a line with its opening marker. Behind it comes
its code, which ends at the next comment, at a line with less indent than the comment, or after as many blank
lines in a row as the scanner allows. In a header scan only the first comment counts, and it has no code.

* `Scanner`: a grammar that can be scanned, and the limits of the scan.
* `Scanner.Phase`: what is open between two lines.
* `Scanner.step`: what one line does.
* `Scanner.tokenize`: the tokens of a file.
-/

namespace DocComments

/-- A cleaned grammar that can be scanned, and how to scan with it. -/
structure Scanner where
  grammar : Grammar
  blankLimit : Nat
  kind : CommentKind

namespace Scanner

/-- The scanner of a grammar, if the grammar can be scanned. At least one blank line is needed to end a run
of code. -/
def ofGrammar (g : Grammar) (blankLines : Nat) (kind : CommentKind) : Except GrammarFault Scanner := do
  let g := g.cleaned
  g.check
  return { grammar := g, blankLimit := max blankLines 1, kind := kind }

/-- A comment whose end was not seen yet. Its lines are listed last to first. -/
structure OpenComment where
  first : Nat
  indent : Nat
  lines : List String

/-- A closed comment that waits for its code to end. The code is listed last line first. -/
structure Pending where
  comment : OpenComment
  last : Nat
  code : List String := []
  codeFirst : Option Nat := none
  codeLast : Option Nat := none
  /-- The number of blank lines since the last line that was not blank. -/
  blanks : Nat := 0

/-- What is open between two lines. -/
inductive Phase where
  | outside
  | inComment (c : OpenComment)
  | behind (u : Pending)
  /-- A header scan that has its token. -/
  | done

variable (s : Scanner)

/-- The token of a comment and its code. -/
def close (u : Pending) : Token where
  kind := s.kind
  comment := .ofLines (some u.comment.first) (some u.last) u.comment.lines.reverse
  code := .ofLines u.codeFirst u.codeLast u.code.reverse

/-- Where a scan goes on when a token is closed. -/
def rest : Phase :=
  match s.kind with
  | .header => .done
  | .body => .outside

/-- A text inside delimiters, without the single marker that it may start with. -/
def inner (text : String) : String :=
  match s.grammar.single.bind (findMarker text) with
  | some h => if Text.isBlank h.before then h.after else text
  | none => text

/-- A line of a comment behind its single marker, or all of it when it has none. -/
def behindSingle (text : String) : String :=
  match s.grammar.single.bind (findMarker text) with
  | some h => h.after
  | none => text

/-- Whether a line has the single marker. -/
def hasSingle (text : String) : Bool :=
  (s.grammar.single.bind (findMarker text)).isSome

/-- A comment of the line form goes on exactly when the next line has the marker. -/
def goOn (c : OpenComment) (n : Nat) (next : Option String) : Phase :=
  if next.any s.hasSingle then .inComment c else .behind { comment := c, last := n }

/-- What the line `n` opens, if it opens a comment. -/
def open? (n : Nat) (text : String) (next : Option String) : Option Phase :=
  let c (ls : List String) : OpenComment := { first := n, indent := Text.indent text, lines := ls }
  match s.grammar.shape with
  | .delimited o e =>
    (findMarker text o).map fun h =>
      match findMarker h.after e with
      | some h' => .behind { comment := c [s.inner h'.before], last := n }
      | none => .inComment (c [s.inner h.after])
  | .lines m =>
    (m.bind (findMarker text)).map fun h => s.goOn (c [h.after]) n next

/-- What a line that is not blank does to an open comment. -/
def continueComment (c : OpenComment) (n : Nat) (text : String) (next : Option String) : Phase :=
  match s.grammar.shape with
  | .delimited _ e =>
    match findMarker text e with
    | some h =>
      let c := if Text.isBlank h.before then c else { c with lines := s.inner h.before :: c.lines }
      .behind { comment := c, last := n }
    | none => .inComment { c with lines := s.inner text :: c.lines }
  | .lines _ => s.goOn { c with lines := s.behindSingle text :: c.lines } n next

/-- What a blank line does. -/
def stepBlank : Phase → List Token × Phase
  | .outside => ([], .outside)
  | .done => ([], .done)
  | .inComment c =>
    match s.grammar.shape with
    | .delimited _ _ => ([], .inComment { c with lines := "" :: c.lines })
    | .lines _ => ([], .inComment c)
  | .behind u =>
    let u := { u with
      code := if u.codeFirst.isSome then "" :: u.code else u.code
      blanks := u.blanks + 1 }
    if s.blankLimit ≤ u.blanks then ([s.close u], s.rest) else ([], .behind u)

/-- What a line of code does behind a comment. -/
def stepCode (u : Pending) (n : Nat) (text : String) : List Token × Phase :=
  match s.kind with
  | .header => ([s.close u], .done)
  | .body =>
    if Text.indent text < u.comment.indent then ([s.close u], .outside)
    else
      ([], .behind { u with
        code := text :: u.code
        codeFirst := u.codeFirst <|> some n
        codeLast := some n
        blanks := 0 })

/-- What the line `n` does: the tokens that end before it, and what is open behind it. A comment of the line
form looks ahead to the next line. -/
def step (p : Phase) (n : Nat) (text : String) (next : Option String) : List Token × Phase :=
  if Text.isBlank text then s.stepBlank p
  else
    match p with
    | .done => ([], .done)
    | .inComment c => ([], s.continueComment c n text next)
    | .outside => ([], (s.open? n text next).getD .outside)
    | .behind u =>
      match s.open? n text next with
      | some p =>
        match s.kind with
        | .header => ([s.close u], .done)
        | .body => ([s.close u], p)
      | none => s.stepCode u n text

/-- What is left when the lines end before the line `n`. A comment that is still open ends with the file. -/
def finish (p : Phase) (n : Nat) : List Token :=
  match p with
  | .outside => []
  | .done => []
  | .inComment c => [s.close { comment := c, last := n - 1 }]
  | .behind u => [s.close u]

/-- The tokens of the lines from the line `n` on. -/
def scan : Phase → Nat → List String → List Token
  | p, n, [] => s.finish p n
  | p, n, l :: ls =>
    let (ts, p') := s.step p n l ls.head?
    ts ++ scan p' (n + 1) ls

/-- The tokens of a file, read from the line `start` on. -/
def tokenize (lines : List String) (start : Nat) : List Token :=
  s.scan .outside start (lines.drop start)

end Scanner

end DocComments
