/-!
Binary floating-point numbers: a sign and a magnitude, whose bit patterns are ordered as the values
are. Every operation is the exact one on rationals followed by one rounding to the nearest number,
a tie going to the even pattern, with the usual rules for infinities and for what is no number.
-/

set_option autoImplicit false
set_option relaxedAutoImplicit false

namespace NodeFleet.Number

structure Format where
  fractionBits : Nat
  exponentBits : Nat
  deriving DecidableEq, Repr

namespace Format

def single : Format := ⟨23, 8⟩

def double : Format := ⟨52, 11⟩

/-- The pattern of infinity; the patterns above it are no numbers. -/
def infinity (f : Format) : Nat :=
  (Nat.pow 2 f.exponentBits - 1) * Nat.pow 2 f.fractionBits

/-- The exponent of the unit of the subnormal numbers. -/
def least (f : Format) : Int :=
  (2 : Int) - Nat.pow 2 (f.exponentBits - 1) - f.fractionBits

end Format

/-- The integer nearest to `n / d`, a half going to the even neighbour. -/
def divideToEven (n d : Nat) : Nat :=
  let q := n / d
  let r := n % d
  if 2 * r < d then q
  else if d < 2 * r then q + 1
  else q + q % 2

/-- The largest `k` with `2 ^ k ≤ n / d`, for positive `n` and `d`. -/
def floorLog (n d : Nat) : Int :=
  let k : Int := (n.log2 : Int) - d.log2
  let reached : Bool :=
    if 0 ≤ k then d * Nat.pow 2 k.toNat ≤ n else d ≤ n * Nat.pow 2 (-k).toNat
  if reached then k else k - 1

/-- The pattern of the number nearest to `n / d`. -/
def nearestPattern (f : Format) (n d : Nat) : Nat :=
  if n = 0 then 0
  else
    let e := max f.least (floorLog n d - f.fractionBits)
    let significand :=
      if 0 ≤ e then divideToEven n (d * Nat.pow 2 e.toNat)
      else divideToEven (n * Nat.pow 2 (-e).toNat) d
    min f.infinity ((e - f.least).toNat * Nat.pow 2 f.fractionBits + significand)

structure Binary (f : Format) where
  negative : Bool
  pattern : Nat
  deriving DecidableEq, Repr

abbrev Single := Binary Format.single

abbrev Double := Binary Format.double

namespace Binary

variable {f : Format}

def nan : Binary f := ⟨false, f.infinity + 1⟩

def infinity : Binary f := ⟨false, f.infinity⟩

def zero : Binary f := ⟨false, 0⟩

def isNaN (x : Binary f) : Bool :=
  f.infinity < x.pattern

def isInfinite (x : Binary f) : Bool :=
  x.pattern == f.infinity

def isFinite (x : Binary f) : Bool :=
  x.pattern < f.infinity

/-- True of both zeros. -/
def isZero (x : Binary f) : Bool :=
  x.pattern == 0

/-- The significand and the exponent of a finite number's magnitude. -/
def parts (x : Binary f) : Nat × Int :=
  let fraction := x.pattern % Nat.pow 2 f.fractionBits
  let exponent := x.pattern / Nat.pow 2 f.fractionBits
  if exponent = 0 then (fraction, f.least)
  else (Nat.pow 2 f.fractionBits + fraction, f.least + exponent - 1)

/-- The value of a finite number's magnitude. -/
def magnitude (x : Binary f) : Rat :=
  (x.parts.1 : Rat) * (2 : Rat) ^ x.parts.2

/-- The value of a finite number. -/
def value (x : Binary f) : Rat :=
  if x.negative then -x.magnitude else x.magnitude

/-- The number nearest to `q`; zero is the positive one. -/
def ofRat (q : Rat) : Binary f :=
  ⟨q < 0, nearestPattern f q.num.natAbs q.den⟩

def ofNat (n : Nat) : Binary f :=
  ofRat n

def neg (x : Binary f) : Binary f :=
  ⟨!x.negative, x.pattern⟩

def add (x y : Binary f) : Binary f :=
  if x.isNaN || y.isNaN then nan
  else if x.isInfinite then
    if y.isInfinite && x.negative != y.negative then nan else x
  else if y.isInfinite then y
  else if x.isZero && y.isZero then ⟨x.negative && y.negative, 0⟩
  else ofRat (x.value + y.value)

def sub (x y : Binary f) : Binary f :=
  x.add y.neg

def mul (x y : Binary f) : Binary f :=
  let negative := x.negative != y.negative
  if x.isNaN || y.isNaN then nan
  else if x.isInfinite || y.isInfinite then
    if x.isZero || y.isZero then nan else ⟨negative, f.infinity⟩
  else ⟨negative, (ofRat (x.magnitude * y.magnitude) : Binary f).pattern⟩

def div (x y : Binary f) : Binary f :=
  let negative := x.negative != y.negative
  if x.isNaN || y.isNaN then nan
  else if x.isInfinite then
    if y.isInfinite then nan else ⟨negative, f.infinity⟩
  else if y.isInfinite then ⟨negative, 0⟩
  else if y.isZero then
    if x.isZero then nan else ⟨negative, f.infinity⟩
  else ⟨negative, (ofRat (x.magnitude / y.magnitude) : Binary f).pattern⟩

/-- Whether `x ≤ y`; no number is comparable with what is none, and the two zeros are equal. -/
def le (x y : Binary f) : Bool :=
  if x.isNaN || y.isNaN then false
  else
    match x.negative, y.negative with
    | false, false => x.pattern ≤ y.pattern
    | true, true => y.pattern ≤ x.pattern
    | true, false => true
    | false, true => x.isZero && y.isZero

def lt (x y : Binary f) : Bool :=
  if x.isNaN || y.isNaN then false else !y.le x

/-- The smaller of two; of a number and what is none, the number. -/
def min (x y : Binary f) : Binary f :=
  if x.isNaN then y
  else if y.isNaN then x
  else if y.lt x then y else x

/-- The number of another format nearest to `x`. -/
def convert {f g : Format} (x : Binary f) : Binary g :=
  if x.isNaN then nan
  else if x.isInfinite then ⟨x.negative, g.infinity⟩
  else ⟨x.negative, (ofRat x.magnitude : Binary g).pattern⟩

/-- The sign and the pattern as one word. -/
def bits (x : Binary f) : Nat :=
  (if x.negative then Nat.pow 2 (f.fractionBits + f.exponentBits) else 0) + x.pattern

end Binary

end NodeFleet.Number
