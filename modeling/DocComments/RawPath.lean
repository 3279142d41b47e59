/-!
# Paths as the system has them

A path is a row of bytes with slashes in it. Most paths are the bytes of a text, but nothing says that they are. Where
the text of a path is asked for, bytes that spell no character are replaced.

* `RawPath.ofText`: the path that a text spells.
* `RawPath.text`: the text of a path, with `U+FFFD` for what is no character.
* `RawPath.parent?`: a path without its last step.
-/

namespace DocComments

/-- A step of a path: any bytes but the slash. -/
abbrev FileName := List UInt8

structure RawPath where
  bytes : List UInt8
  deriving DecidableEq, Inhabited

namespace RawPath

/-- The path that a text spells. -/
def ofText (s : String) : RawPath :=
  ⟨s.toList.flatMap String.utf8EncodeChar⟩

/-- A text stands for the path that it spells. -/
instance : Coe String RawPath := ⟨ofText⟩

instance : Coe (List String) (List RawPath) := ⟨List.map ofText⟩

/-! ### The text of a path -/

/-- Whether `c` can stand behind `b` in the bytes of a character, where `b` is the first of them. -/
def mayFollow (b c : UInt8) : Bool :=
  if b = 0xE0 then 0xA0 ≤ c && c ≤ 0xBF
  else if b = 0xED then 0x80 ≤ c && c ≤ 0x9F
  else if b = 0xF0 then 0x90 ≤ c && c ≤ 0xBF
  else if b = 0xF4 then 0x80 ≤ c && c ≤ 0x8F
  else 0xC2 ≤ b && b ≤ 0xF3 && 0x80 ≤ c && c ≤ 0xBF

/-- How many bytes, where no character starts, are replaced by one: those that a character could start with, or the first
one alone. -/
def brokenSize : List UInt8 → Nat
  | b :: c :: bs =>
    if ! mayFollow b c then 1
    else if 0xF0 ≤ b && bs.head?.any (fun d => 0x80 ≤ d && d ≤ 0xBF) then 3
    else 2
  | _ => 1

/-- The character for what is none. -/
def replacement : Char := '\uFFFD'

/-- The characters of some bytes, of which the first `skip` have been read. -/
def charsFrom : (skip : Nat) → List UInt8 → List Char
  | _, [] => []
  | skip + 1, _ :: bs => charsFrom skip bs
  | 0, b :: bs =>
    -- no character has more than four bytes
    match ((b :: bs).take 4).toByteArray.utf8DecodeChar? 0 with
    | some c => c :: charsFrom (c.utf8Size - 1) bs
    | none => replacement :: charsFrom (brokenSize (b :: bs) - 1) bs

/-- The text of a path. -/
def text (path : RawPath) : String :=
  String.ofList (charsFrom 0 path.bytes)

/-! ### The steps of a path -/

def slash : UInt8 := 0x2F

/-- The step that leads nowhere. -/
def here : FileName := [0x2E]

/-- The step that leads upwards. -/
def above : FileName := [0x2E, 0x2E]

/-- Whether a path starts at the root. -/
def isAbsolute (path : RawPath) : Bool :=
  path.bytes.head? = some slash

/-- The steps of a path, with the empty ones. -/
def steps (path : RawPath) : List FileName :=
  path.bytes.splitOn slash

/-- The steps of a path, without the empty ones and those that lead nowhere. -/
def components (path : RawPath) : List FileName :=
  path.steps.filter fun s => s ≠ [] && s ≠ here

/-- The path that takes some steps. -/
def ofSteps (steps : List FileName) : RawPath :=
  ⟨[slash].intercalate steps⟩

/-- The path that takes the first of the steps of another path. -/
def upTo (path : RawPath) (n : Nat) : RawPath :=
  ⟨(if path.isAbsolute then [slash] else []) ++ (ofSteps (path.components.take n)).bytes⟩

/-- A path without its last step; a path without steps has none. -/
def parent? (path : RawPath) : Option RawPath :=
  if path.components.isEmpty then none else some (path.upTo (path.components.length - 1))

end RawPath

end DocComments
