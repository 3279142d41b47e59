/-!
# Text inside HTML

The five characters with a meaning in HTML are written as entities.
-/

namespace DocComments.Text

/-- The entity that stands for a character, or the character itself. -/
def entity : Char → List Char
  | '&' => ['&', 'a', 'm', 'p', ';']
  | '<' => ['&', 'l', 't', ';']
  | '>' => ['&', 'g', 't', ';']
  | '"' => ['&', 'q', 'u', 'o', 't', ';']
  | '\'' => ['&', '#', '3', '9', ';']
  | c => [c]

/-- A text as it is written inside HTML. -/
def escapeHtml (s : String) : String :=
  String.ofList (s.toList.flatMap entity)

end DocComments.Text
