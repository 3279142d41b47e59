/-!
# Diagnostics

What happens while files are read is told in events, each with a diagnostic: a message, and where in which
file it belongs.
-/

namespace DocComments

structure Diagnostic where
  message : String
  file : Option String := none
  /-- The line, counted from 1. -/
  line : Option Nat := none
  snippet : Option String := none
  deriving DecidableEq, Inhabited

/-- The diagnostic in one text: place, message, and the snippet below. A line counts only with its file. -/
def Diagnostic.render (d : Diagnostic) : String :=
  let text :=
    match d.file, d.line with
    | some f, some l => f ++ ":" ++ toString l ++ ": " ++ d.message
    | some f, none => f ++ ": " ++ d.message
    | none, _ => d.message
  match d.snippet with
  | some s => text ++ "\n" ++ s
  | none => text

inductive Level where
  | warning
  | error
  /-- A file was read. -/
  | file
  | debug
  deriving DecidableEq, Inhabited

def Level.label : Level → String
  | .warning => "warning"
  | .error => "error"
  | .file => "file"
  | .debug => "debug"

structure Event where
  level : Level
  diagnostic : Diagnostic
  deriving DecidableEq, Inhabited

/-- Whether an event is passed on. A quiet reader keeps warnings back, and nothing else. -/
def Event.passes (quiet : Bool) (e : Event) : Bool :=
  ! (e.level = .warning && quiet)

/-- An error in a file as a whole. -/
def Event.errorIn (file message : String) : Event :=
  ⟨.error, { message := message, file := some file }⟩

/-- The diagnostics of the events of one level. -/
def Event.ofLevel (l : Level) (es : List Event) : List Diagnostic :=
  (es.filter (·.level = l)).map (·.diagnostic)

end DocComments
