import NodeFleet.Quota.Bucket
import NodeFleet.Quota.Settings
/-!
The read and write buckets of one resource category. Disabled settings and rates that are not
positive throttle nothing.
-/

set_option autoImplicit false
set_option relaxedAutoImplicit false

namespace NodeFleet.Quota

open NodeFleet.Number

inductive Direction
  | read
  | write
  deriving DecidableEq, Repr

structure Limiter (α : Type) where
  category : Category
  read : Option (Bucket α)
  write : Option (Bucket α)

namespace Limiter

variable {α : Type} [Balance α]

def bucket? (enabled : Bool) (qps : Single) (burst : UInt32) (now : Nat) : Option (Bucket α) :=
  if enabled && Binary.zero.lt qps then some (.new qps burst now) else none

def new (category : Category) (s : Settings) (now : Nat) : Limiter α :=
  ⟨category, bucket? s.enabled s.qps s.bucket now, bucket? s.enabled s.qpsWrite s.bucketWrite now⟩

def bucket (l : Limiter α) : Direction → Option (Bucket α)
  | .read => l.read
  | .write => l.write

def withBucket (l : Limiter α) (d : Direction) (b : Bucket α) : Limiter α :=
  match d with
  | .read => { l with read := some b }
  | .write => { l with write := some b }

/-- Takes a token, or names the wait after which to ask again. -/
def take (now : Nat) (d : Direction) (l : Limiter α) : Limiter α × Option Duration :=
  match l.bucket d with
  | none => (l, none)
  | some b =>
    let (next, wait) := b.take now
    (l.withBucket d next, wait)

/-- Asks again after each wait until a token is taken, and tells when that was; the rounds are
bounded by `fuel`. -/
def acquire : Nat → Nat → Direction → Limiter α → Option (Nat × Limiter α)
  | 0, _, _, _ => none
  | fuel + 1, now, d, l =>
    match l.take now d with
    | (next, none) => some (now, next)
    | (next, some wait) => acquire fuel (wakeAfter now wait) d next

end Limiter

end NodeFleet.Quota
