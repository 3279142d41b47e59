/-!
# Decimal numbers in double precision

A number in double precision has 53 binary digits, and a decimal number that is too large for it overflows. There
are two ways to get there. A number can be rounded once; or its digits, as many as fit a word of 64 bits, and a
power of ten are rounded each by itself and then multiplied, which may overflow a little earlier or later.

* `Decimal.overflows`: whether a number overflows when it is rounded once.
* `Decimal.Scaled`: a word and a power of ten.
* `Decimal.Scaled.overflows`: whether their product does.
-/

namespace DocComments.Decimal

def natOfDigits (ds : List Char) : Nat :=
  ds.foldl (fun n d => 10 * n + (d.toNat - '0'.toNat)) 0

/-- From here on numbers round to infinity. -/
def limit : Nat := Nat.pow 2 1024 - Nat.pow 2 970

/-- Whether `m * 10 ^ e` overflows. -/
def overflows (m : Nat) (e : Int) : Bool :=
  if m = 0 then false
  else if 400 < e then true
  else if 0 ≤ e then limit ≤ m * Nat.pow 10 e.toNat
  else if m.log2 < (-e).toNat then false
  else limit ≤ m / Nat.pow 10 (-e).toNat

/-- A number with its first 53 binary digits alone, rounded to the nearest; halfway the last digit becomes even. -/
def round (n : Nat) : Nat :=
  let unit := Nat.pow 2 (n.log2 - 52)
  let q := n / unit
  let twice := 2 * (n % unit)
  if twice < unit || (twice = unit && q % 2 = 0) then q * unit else (q + 1) * unit

/-- The number `word * 10 ^ exponent`. -/
structure Scaled where
  word : Nat
  exponent : Int
  deriving DecidableEq

namespace Scaled

/-- Adds digits to a number as long as it fits a word of 64 bits; the others are left over. -/
def gather (n : Nat) : List Char → Nat × List Char
  | [] => (n, [])
  | d :: ds =>
    let m := 10 * n + (d.toNat - '0'.toNat)
    if m < Nat.pow 2 64 then gather m ds else (n, d :: ds)

/-- The digits before and behind a point, as far as they fit a word, and an exponent. -/
def ofDigits (whole frac : List Char) (e : Int) : Scaled :=
  let (n, left) := gather 0 whole
  let (n, rest) := gather n frac
  ⟨n, e + left.length - (frac.length - rest.length : Nat)⟩

/-- The largest power of ten in double precision. -/
def maxPower : Int := 308

/-- Whether the word times the power of ten overflows. -/
def overflows (s : Scaled) : Bool :=
  if s.word = 0 || s.exponent < 0 then false
  else if maxPower < s.exponent then true
  else limit ≤ round s.word * round (Nat.pow 10 s.exponent.toNat)

end Scaled

end DocComments.Decimal
