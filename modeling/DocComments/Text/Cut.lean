/-!
# Cutting a text at a pattern

Patterns are plain texts. A search gives back what stands before and after the place it found, so that the
two parts and the pattern between them are the whole text again.

* `after?`: the rest of a text behind a pattern that it starts with.
* `cut?`: the two sides of the first place where a pattern stands.
* `splitOnChar`: the pieces of a text between the places where a character stands.
-/

namespace DocComments.Text

/-- What is left of a text when it starts with `p`. -/
def after? : (p s : List Char) → Option (List Char)
  | [], s => some s
  | _ :: _, [] => none
  | a :: p, c :: s => if a = c then after? p s else none

/-- The two sides of the first place where `p` stands in a text. -/
def cut? (p : List Char) : List Char → Option (List Char × List Char)
  | [] => (after? p []).map (([], ·))
  | c :: cs =>
    match after? p (c :: cs) with
    | some rest => some ([], rest)
    | none => (cut? p cs).map fun (before, rest) => (c :: before, rest)

/-- Whether `p` stands somewhere in `s`. -/
def contains (s p : String) : Bool :=
  (cut? p.toList s.toList).isSome

/-- The pieces of a text between the places where `c` stands. -/
def splitOnChar (s : String) (c : Char) : List String :=
  (s.toList.splitOn c).map String.ofList

end DocComments.Text
