import DocComments.Builtin.Descriptive
import DocComments.Builtin.Location
import DocComments.Builtin.Markup
import DocComments.Builtin.Signature

/-!
# The built-in annotations

* `Builtin.definitions`: the built-in annotations, in the order in which they are registered.
* `Registry.builtin`: the registry of just these.
-/

namespace DocComments

/-- The built-in annotations by name. -/
def Builtin.definitions : List (String × Definition) :=
  [("access", access), ("arg", arg), ("author", author), ("blockinfo", blockinfo),
   ("chainable", chainable), ("deprecated", deprecated), ("description", descriptionTag),
   ("markup", markup), ("name", name), ("note", note), ("property", property), ("raw-code", rawCode),
   ("requires", requires), ("returns", returns), ("since", since), ("states", states),
   ("throws", throws), ("todo", todo), ("type", type), ("version", version)]

namespace Registry

/-- Registers the built-in annotations. -/
def registerBuiltin (r : Registry) : Registry × Option RegistryFault :=
  r.registerAll (Builtin.definitions.map fun (name, d) => (name, .definition d))

/-- The registry of the built-in annotations. -/
def builtin : Registry :=
  (registerBuiltin {}).1

end Registry

end DocComments
