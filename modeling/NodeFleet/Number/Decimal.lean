import NodeFleet.Number.Binary
import NodeFleet.Number.Integer
/-!
Decimal texts of real numbers: read exactly, then rounded once to a binary format.
-/

set_option autoImplicit false
set_option relaxedAutoImplicit false

namespace NodeFleet.Number

inductive RealFault
  | empty
  | invalid
  deriving DecidableEq, Repr

def RealFault.message : RealFault → String
  | .empty => "cannot parse float from empty string"
  | .invalid => "invalid float literal"

/-- What a decimal text says before any rounding; `scaled m e` is `m * 10 ^ e`. -/
inductive Decimal
  | nan
  | infinite
  | scaled (significand : Nat) (exponent : Int)
  deriving DecidableEq, Repr

namespace Decimal

def digitsValue (s : List Char) : Nat :=
  s.foldl (fun n c ↦ n * 10 + digitValue c) 0

/-- The exponent after the mark `e`: an optional sign and at least one digit. -/
def exponent? : List Char → Option Int
  | '-' :: rest => digits? rest |>.map fun n ↦ -(n : Int)
  | '+' :: rest => digits? rest |>.map Int.ofNat
  | s => digits? s |>.map Int.ofNat
where
  digits? (s : List Char) : Option Nat :=
    if s ≠ [] ∧ s.all Char.isDigit then some (digitsValue s) else none

/-- A number without sign: digits with at most one point among or around them, then perhaps an
exponent. -/
def numeral? (s : List Char) : Option Decimal :=
  let whole := s.takeWhile Char.isDigit
  let afterWhole := s.dropWhile Char.isDigit
  let (fraction, rest) :=
    match afterWhole with
    | '.' :: r => (r.takeWhile Char.isDigit, r.dropWhile Char.isDigit)
    | r => ([], r)
  let significand := digitsValue (whole ++ fraction)
  let places : Int := fraction.length
  if whole = [] ∧ fraction = [] then none
  else
    match rest with
    | [] => some (.scaled significand (-places))
    | c :: r =>
      if c = 'e' ∨ c = 'E' then (exponent? r).map fun e ↦ .scaled significand (e - places)
      else none

def unsigned? (s : List Char) : Option Decimal :=
  match s.map Char.toLower with
  | ['n', 'a', 'n'] => some .nan
  | ['i', 'n', 'f'] => some .infinite
  | ['i', 'n', 'f', 'i', 'n', 'i', 't', 'y'] => some .infinite
  | _ => numeral? s

/-- The sign and what follows it. -/
def read (s : List Char) : Except RealFault (Bool × Decimal) :=
  let signed (negative : Bool) (rest : List Char) :=
    match unsigned? rest with
    | some d => .ok (negative, d)
    | none => .error .invalid
  match s with
  | [] => .error .empty
  | '-' :: rest => signed true rest
  | '+' :: rest => signed false rest
  | _ => signed false s

/-- The pattern nearest to `m * 10 ^ e`. An exponent beyond every number of the formats is decided
by the count of digits alone. -/
def pattern (f : Format) (m : Nat) (e : Int) : Nat :=
  let reach : Int := (Nat.toDigits 10 m).length + e
  if m = 0 then 0
  else if Nat.pow 2 f.exponentBits < reach then f.infinity
  else if reach < -Nat.pow 2 f.exponentBits then 0
  else if 0 ≤ e then nearestPattern f (m * Nat.pow 10 e.toNat) 1
  else nearestPattern f m (Nat.pow 10 (-e).toNat)

def round (f : Format) (negative : Bool) : Decimal → Binary f
  | .nan => .nan
  | .infinite => ⟨negative, f.infinity⟩
  | .scaled m e => ⟨negative, pattern f m e⟩

end Decimal

/-- The number nearest to what a decimal text says. -/
def Binary.read (f : Format) (s : List Char) : Except RealFault (Binary f) :=
  (Decimal.read s).map fun d ↦ d.2.round f d.1

end NodeFleet.Number
