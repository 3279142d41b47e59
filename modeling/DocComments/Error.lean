import DocComments.Block.Build
import DocComments.FileTree
import DocComments.Style.Resolve

/-!
# Errors

Everything that can go wrong, by cause, and the words for it.
-/

namespace DocComments

inductive Error where
  | file (f : FileFault)
  /-- A text that is not the JSON that was asked for. -/
  | json
  /-- A text that is not the YAML that was asked for. -/
  | yaml
  | grammar (f : GrammarFault)
  | style (f : StyleFault)
  | registry (f : RegistryFault)
  | callback (f : CallbackFault)
  deriving DecidableEq

def Error.message : Error → String
  | .file f => "I/O error: " ++ f.reason
  | .json => "JSON error"
  | .yaml => "YAML error"
  | .grammar f => f.message
  | .style f => "configuration error: " ++ f.reason
  | .registry f => f.message
  | .callback f => f.message

/-- The messages of what lies below an error. -/
def Error.source : Error → List String
  | .file f => [f.reason]
  | .callback f => f.source
  | _ => []

end DocComments
