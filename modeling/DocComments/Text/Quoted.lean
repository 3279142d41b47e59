import DocComments.Text.Unprintable

/-!
# Quoted text

A text shown in a message stands in double quotes. The quote, the backslash and the usual control characters
have short escapes; any other character that does not show by itself is written with its number.
-/

namespace DocComments.Text

/-- A number in lower-case hexadecimal, without leading zeros. -/
def hex (n : Nat) : List Char :=
  Nat.toDigits 16 n

/-- A character as it is written between quotes. -/
def quoteChar (c : Char) : List Char :=
  match c with
  | '\x00' => ['\\', '0']
  | '\t' => ['\\', 't']
  | '\r' => ['\\', 'r']
  | '\n' => ['\\', 'n']
  | '\\' => ['\\', '\\']
  | '"' => ['\\', '"']
  | _ => if isUnprintable c then ['\\', 'u', '\x7b'] ++ hex c.toNat ++ ['\x7d'] else [c]

/-- A text between double quotes. -/
def quote (s : String) : String :=
  String.ofList ('"' :: s.toList.flatMap quoteChar ++ ['"'])

/-- A text that may be missing, as messages show it. -/
def quote? : Option String → String
  | none => "None"
  | some s => "Some(" ++ quote s ++ ")"

end DocComments.Text
