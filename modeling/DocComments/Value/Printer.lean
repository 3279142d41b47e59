import DocComments.Value

/-!
# Writing values

A value is written as JSON in one line without blanks, or over several lines with two blanks per level. Text
is written as it is, but for the quote, the backslash and the control characters below U+0020.

* `Value.compact`: in one line.
* `Value.pretty`: over several lines.
-/

namespace DocComments.Value

def hexDigit (n : Nat) : Char :=
  Nat.digitChar (n % 16)

/-- A character between the quotes of a JSON string. -/
def escapeChar (c : Char) : List Char :=
  match c with
  | '"' => ['\\', '"']
  | '\\' => ['\\', '\\']
  | '\n' => ['\\', 'n']
  | '\r' => ['\\', 'r']
  | '\t' => ['\\', 't']
  | '\x08' => ['\\', 'b']
  | '\x0c' => ['\\', 'f']
  | _ =>
    if c.toNat < 0x20 then ['\\', 'u', '0', '0', hexDigit (c.toNat / 16), hexDigit c.toNat]
    else [c]

/-- A text as a JSON string. -/
def quoted (s : String) : List Char :=
  '"' :: s.toList.flatMap escapeChar ++ ['"']

/-- A value without parts. -/
def leafChars : Value → List Char
  | .bool b => (if b then "true" else "false").toList
  | .int n => (toString n).toList
  | .decimal s => s.toList
  | .str s => quoted s
  | _ => "null".toList

mutual

/-- The value in one line. -/
def compactChars : Value → List Char
  | .arr [] => ['[', ']']
  | .arr (v :: vs) => '[' :: (compactChars v ++ compactItems vs)
  | .obj [] => ['\x7b', '\x7d']
  | .obj ((k, v) :: fs) => '\x7b' :: (quoted k ++ ':' :: (compactChars v ++ compactFields fs))
  | v => leafChars v

/-- The items behind the first one, and the closing bracket. -/
def compactItems : List Value → List Char
  | [] => [']']
  | v :: vs => ',' :: (compactChars v ++ compactItems vs)

/-- The fields behind the first one, and the closing brace. -/
def compactFields : List (String × Value) → List Char
  | [] => ['\x7d']
  | (k, v) :: fs => ',' :: (quoted k ++ ':' :: (compactChars v ++ compactFields fs))

end

/-- The value in one line. -/
def compact (v : Value) : String :=
  String.ofList (compactChars v)

/-- A line break and the blanks of `depth` levels. -/
def newline (depth : Nat) : List Char :=
  '\n' :: List.replicate (2 * depth) ' '

mutual

/-- The value over several lines, inside `depth` levels. -/
def prettyChars (depth : Nat) : Value → List Char
  | .arr [] => ['[', ']']
  | .arr (v :: vs) =>
    '[' :: (newline (depth + 1) ++ (prettyChars (depth + 1) v ++ prettyItems depth vs))
  | .obj [] => ['\x7b', '\x7d']
  | .obj ((k, v) :: fs) =>
    '\x7b' :: (newline (depth + 1) ++ (quoted k ++ ':' :: ' ' ::
      (prettyChars (depth + 1) v ++ prettyFields depth fs)))
  | v => leafChars v

/-- The items behind the first one, and the closing bracket. -/
def prettyItems (depth : Nat) : List Value → List Char
  | [] => newline depth ++ [']']
  | v :: vs => ',' :: (newline (depth + 1) ++ (prettyChars (depth + 1) v ++ prettyItems depth vs))

/-- The fields behind the first one, and the closing brace. -/
def prettyFields (depth : Nat) : List (String × Value) → List Char
  | [] => newline depth ++ ['\x7d']
  | (k, v) :: fs =>
    ',' :: (newline (depth + 1) ++ (quoted k ++ ':' :: ' ' ::
      (prettyChars (depth + 1) v ++ prettyFields depth fs)))

end

/-- The value over several lines. -/
def pretty (v : Value) : String :=
  String.ofList (prettyChars 0 v)

end DocComments.Value
