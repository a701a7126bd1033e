import NodeFleet.Number.Binary
/-!
The shortest decimal text of a finite binary number: of the decimals that round to the number, the
one with the fewest digits, and of those the nearest to it.
-/

set_option autoImplicit false
set_option relaxedAutoImplicit false

namespace NodeFleet.Number

/-- The magnitude `significand * 2 ^ exponent` as a fraction. -/
def fraction (significand : Nat) (exponent : Int) : Nat × Nat :=
  if 0 ≤ exponent then (significand * Nat.pow 2 exponent.toNat, 1)
  else (significand, Nat.pow 2 (-exponent).toNat)

/-- The decimal exponent of the unit when a positive fraction is written with `count` digits. -/
def unitExponent (n d : Nat) (count : Nat) : Int :=
  let digits (k : Nat) : Int := (Nat.toDigits 10 k).length
  let estimate : Int := digits n - digits d
  let reached : Bool :=
    if 0 ≤ estimate then d * Nat.pow 10 estimate.toNat ≤ n
    else d ≤ n * Nat.pow 10 (-estimate).toNat
  (if reached then estimate else estimate - 1) - count + 1

/-- The decimal of `count` digits nearest to `n / d`, if it reads back as `pattern`. -/
def decimalOf (f : Format) (pattern n d count : Nat) : Option (Nat × Int) :=
  let e := unitExponent n d count
  let (num, den) :=
    if 0 ≤ e then (n, d * Nat.pow 10 e.toNat) else (n * Nat.pow 10 (-e).toNat, d)
  let below := num / den
  let readsBack (m : Nat) : Bool :=
    (if 0 ≤ e then nearestPattern f (m * Nat.pow 10 e.toNat) 1
      else nearestPattern f m (Nat.pow 10 (-e).toNat)) == pattern
  let nearest := divideToEven num den
  let other := if nearest = below then below + 1 else below
  if readsBack nearest then some (nearest, e)
  else if readsBack other then some (other, e)
  else none

/-- The digits and the exponent of their unit; seventeen digits serve for every double. -/
def shortestDigits (f : Format) (x : Binary f) : Nat × Int :=
  let (n, d) := fraction x.parts.1 x.parts.2
  if n = 0 then (0, 0)
  else ((List.range 17).findSome? fun k ↦ decimalOf f x.pattern n d (k + 1)).getD (0, 0)

/-- The digits written positionally, with at least one place after the point. -/
def positional (m : Nat) (e : Int) : String :=
  let digits := Nat.toDigits 10 m
  if 0 ≤ e then String.ofList (digits ++ List.replicate e.toNat '0') ++ ".0"
  else
    let places := (-e).toNat
    let padded := List.replicate (places + 1 - digits.length) '0' ++ digits
    let cut := padded.length - places
    let fraction := (padded.drop cut).reverse.dropWhile (· = '0') |>.reverse
    String.ofList (padded.take cut) ++ "." ++
      (if fraction = [] then "0" else String.ofList fraction)

/-- Positional text with a point; infinities and what is no number by name. -/
def Binary.text {f : Format} (x : Binary f) : String :=
  if x.isNaN then "NaN"
  else
    (if x.negative then "-" else "") ++
      (if x.isInfinite then "inf"
        else
          let (m, e) := shortestDigits f x
          positional m e)

end NodeFleet.Number
