import DocComments.Command

/-!
# The command line

Words at the command line name a command and its settings. A setting starts with a dash and may take the next
word, or what follows an equals sign, as its value. Behind a double dash all words are taken as they are.

* `CommandLine.Request`: what is asked for.
* `CommandLine.read`: the request that some words make.
-/

namespace DocComments.CommandLine

inductive Request where
  /-- A command, and the file of its configuration if it is named. -/
  | run (command : Command) (config : Option String)
  | help
  | version
  | invalid (reason : String)

/-- The settings that take a value, by the names they go by. -/
def valued : List (String × String) :=
  [("-c", "config"), ("--config", "config"), ("-o", "output"), ("--output", "output"),
   ("--blank-lines", "blank-lines"), ("--filetype", "filetype")]

/-- The settings that stand alone. -/
def flags : List (String × String) :=
  [("-v", "verbose"), ("--verbose", "verbose"), ("--pretty", "pretty"), ("--json", "json"), ("-h", "help"),
   ("--help", "help"), ("-V", "version"), ("--version", "version")]

/-- Words, sorted into settings and the rest. -/
structure Words where
  settings : List (String × String) := []
  plain : List String := []

namespace Words

def addSetting (w : Words) (name value : String) : Words :=
  { w with settings := (name, value) :: w.settings }

def addPlain (w : Words) (word : String) : Words :=
  { w with plain := word :: w.plain }

def has (w : Words) (name : String) : Bool :=
  w.settings.any (·.1 = name)

def get? (w : Words) (name : String) : Option String :=
  w.settings.lookup name

end Words

/-- The two sides of the first equals sign. -/
def cutValue? (word : String) : Option (String × String) :=
  let cs := word.toList
  match cs.dropWhile (· ≠ '=') with
  | [] => none
  | _ :: value => some (String.ofList (cs.takeWhile (· ≠ '=')), String.ofList value)

/-- Sorts words into settings and the rest. -/
def sort : List String → Except String Words
  | [] => .ok {}
  | "--" :: words => .ok { plain := words }
  | word :: words =>
    match flags.lookup word with
    | some name => (sort words).map (·.addSetting name "")
    | none =>
      match valued.lookup word with
      | some name =>
        match words with
        | [] => .error ("a value is required for '" ++ word ++ "'")
        | value :: words => (sort words).map (·.addSetting name value)
      | none =>
        match (cutValue? word).bind fun (n, v) => (valued.lookup n).map (·, v) with
        | some (name, value) => (sort words).map (·.addSetting name value)
        | none =>
          if word.startsWith "-" && word ≠ "-" then .error ("unexpected argument '" ++ word ++ "'")
          else (sort words).map (·.addPlain word)

/-- A number is written in digits alone. -/
def number? (s : String) : Option Nat :=
  if s.toList.all Char.isDigit then s.toNat? else none

/-- The command that sorted words name. -/
def command (w : Words) : Except String Command :=
  match w.plain with
  | [] => .error "a command is required"
  | "parse" :: paths =>
    if paths.isEmpty then .error "files are required"
    else
      match (w.get? "blank-lines").map number? with
      | some none => .error "the number of blank lines is no number"
      | n => .ok (.parse {
          paths := paths.map .ofText, output := (w.get? "output").map .ofText, blankLines := n.join,
          pretty := w.has "pretty" })
  | "annotations" :: _ => .ok (.annotations ((w.get? "filetype").getD "default") (w.has "json"))
  | "comments" :: _ => .ok (.comments (w.get? "filetype"))
  | word :: _ => .error ("unrecognized command '" ++ word ++ "'")

/-- The request that some words make. -/
def read (words : List String) : Request :=
  match sort words with
  | .error reason => .invalid reason
  | .ok w =>
    if w.has "help" then .help
    else if w.has "version" then .version
    else
      match command w with
      | .ok c => .run c (w.get? "config")
      | .error reason => .invalid reason

/-- How to use the program. -/
def usage : String :=
  "Extract structured documentation from source comments\n\n" ++
  "Usage: docs [--config FILE] parse FILES... [--output FILE] [--blank-lines N] [--pretty]\n" ++
  "       docs annotations [--filetype TYPE] [--json]\n" ++
  "       docs [--config FILE] comments [--filetype TYPE]\n"

/-- The files that a request may read or write. -/
def Request.paths : Request → List RawPath
  | .run (.parse o) _ => o.paths ++ o.output.toList
  | _ => []

/-- Why a command failed, with the causes below. -/
def failureText : List String → String
  | [] => ""
  | [m] => "Error: " ++ m ++ "\n"
  | [m, cause] => "Error: " ++ m ++ "\n\nCaused by:\n    " ++ cause ++ "\n"
  | m :: causes =>
    "Error: " ++ m ++ "\n\nCaused by:\n" ++
      String.join (causes.mapIdx fun i cause => "    " ++ toString i ++ ": " ++ cause ++ "\n")

end DocComments.CommandLine
