import NodeFleet.Duration
import NodeFleet.Number.Binary
/-!
Token buckets. A bucket is refilled whenever it is asked, in proportion to the time that has passed
and up to its capacity; one token is taken or a wait is named. The arithmetic of balances is a
parameter: buckets run on doubles, and on exact rationals.
-/

set_option autoImplicit false
set_option relaxedAutoImplicit false

namespace NodeFleet.Quota

open NodeFleet.Number

/-- The arithmetic of token balances, of rates and of seconds. -/
class Balance (α : Type) where
  ofNat : Nat → α
  ofSingle : Single → α
  /-- Milliseconds as seconds. -/
  seconds : Nat → α
  add : α → α → α
  sub : α → α → α
  mul : α → α → α
  div : α → α → α
  /-- The smaller of two, and of a number and what is none, the number. -/
  min : α → α → α
  le : α → α → Bool
  /-- Seconds rounded to whole nanoseconds, if they are a length of time. -/
  duration? : α → Option Duration

/-- A length in seconds rounded to the nearest nanosecond, below `2 ^ 64` seconds. -/
def durationOfRat? (q : Rat) : Option Duration :=
  if 0 ≤ q ∧ q < (Nat.pow 2 64 : Nat) then some ⟨divideToEven (q.num.natAbs * 1000000000) q.den⟩
  else none

instance : Balance Rat where
  ofNat n := n
  ofSingle x := x.value
  seconds ms := mkRat ms 1000
  add x y := x + y
  sub x y := x - y
  mul x y := x * y
  div x y := x / y
  min x y := if x ≤ y then x else y
  le x y := x ≤ y
  duration? := durationOfRat?

instance : Balance Double where
  ofNat := .ofNat
  ofSingle := .convert
  seconds ms :=
    (Binary.ofNat (ms / 1000)).add
      ((Binary.ofNat (ms % 1000 * 1000000)).div (Binary.ofNat 1000000000))
  add := .add
  sub := .sub
  mul := .mul
  div := .div
  min := .min
  le := Binary.le
  duration? x := if x.isFinite then durationOfRat? x.value else none

/-- The longest single wait. -/
def maxWait : Duration := .ofSeconds 60

structure Bucket (α : Type) where
  capacity : α
  tokens : α
  rate : α
  /-- When the balance was last brought up to date. -/
  refilledAt : Nat
  deriving Repr

namespace Bucket

variable {α : Type} [Balance α]

/-- A full bucket; one of no burst holds one token. -/
def new (qps : Single) (burst : UInt32) (now : Nat) : Bucket α :=
  let capacity := Balance.ofNat (max burst.toNat 1)
  ⟨capacity, capacity, Balance.ofSingle qps, now⟩

def refill (now : Nat) (b : Bucket α) : Bucket α :=
  let earned := Balance.mul (Balance.seconds (now - b.refilledAt)) b.rate
  { b with
    tokens := Balance.min (Balance.add b.tokens earned) b.capacity
    refilledAt := now }

/-- How long the tokens missing take to arrive. -/
def shortfall (b : Bucket α) : Duration :=
  let missing := Balance.sub (Balance.ofNat 1) b.tokens
  let wait := (Balance.duration? (Balance.div missing b.rate)).getD maxWait
  if wait.nanos ≤ maxWait.nanos then wait else maxWait

/-- Takes a token after a refill, or names the wait after which to ask again. -/
def take (now : Nat) (b : Bucket α) : Bucket α × Option Duration :=
  let full := b.refill now
  if Balance.le (Balance.ofNat 1) full.tokens then
    ({ full with tokens := Balance.sub full.tokens (Balance.ofNat 1) }, none)
  else (full, some full.shortfall)

end Bucket

/-- When a wait begun at `now` ends; even the shortest takes a millisecond. -/
def wakeAfter (now : Nat) (wait : Duration) : Nat :=
  now + max wait.ceilMillis 1

end NodeFleet.Quota
