/-!
Decimal integer literals with a bound. A reading stops at the first character that is no digit or
makes the value leave the bound, whichever comes first, so each text has one fault at most.
-/

set_option autoImplicit false
set_option relaxedAutoImplicit false

namespace NodeFleet.Number

inductive IntegerFault
  | empty
  | invalidDigit
  | tooLarge
  | tooSmall
  deriving DecidableEq, Repr

def IntegerFault.message : IntegerFault → String
  | .empty => "cannot parse integer from empty string"
  | .invalidDigit => "invalid digit found in string"
  | .tooLarge => "number too large to fit in target type"
  | .tooSmall => "number too small to fit in target type"

def digitValue (c : Char) : Nat :=
  c.toNat - '0'.toNat

/-- The value of `value` followed by the digits, as long as it stays within `bound`. -/
def readDigits (bound : Nat) (beyond : IntegerFault) (value : Nat) :
    List Char → Except IntegerFault Nat
  | [] => .ok value
  | c :: rest =>
    if c.isDigit then
      let next := value * 10 + digitValue c
      if next ≤ bound then readDigits bound beyond next rest else .error beyond
    else .error .invalidDigit

/-- An unsigned literal of value at most `bound`: an optional plus sign and at least one digit. -/
def readNat (bound : Nat) : List Char → Except IntegerFault Nat
  | [] => .error .empty
  | ['+'] => .error .invalidDigit
  | '+' :: rest => readDigits bound .tooLarge 0 rest
  | s => readDigits bound .tooLarge 0 s

/-- A signed literal between `-bound - 1` and `bound`: an optional sign and at least one digit. -/
def readInt (bound : Nat) : List Char → Except IntegerFault Int
  | [] => .error .empty
  | ['+'] => .error .invalidDigit
  | ['-'] => .error .invalidDigit
  | '-' :: rest => (readDigits (bound + 1) .tooSmall 0 rest).map fun n ↦ -(n : Int)
  | '+' :: rest => (readDigits bound .tooLarge 0 rest).map Int.ofNat
  | s => (readDigits bound .tooLarge 0 s).map Int.ofNat

/-- The largest sizes of unsigned and signed words. -/
def maxUnsigned64 : Nat := Nat.pow 2 64 - 1

def maxSigned64 : Nat := Nat.pow 2 63 - 1

def maxUnsigned32 : Nat := Nat.pow 2 32 - 1

end NodeFleet.Number
