/-!
Lengths of time in nanoseconds, the wait they make on a clock of whole milliseconds, and their
short text in messages.
-/

set_option autoImplicit false
set_option relaxedAutoImplicit false

namespace NodeFleet

structure Duration where
  nanos : Nat
  deriving DecidableEq, Repr

namespace Duration

def ofSeconds (n : Nat) : Duration := ⟨n * 1000000000⟩

def ofMillis (n : Nat) : Duration := ⟨n * 1000000⟩

def seconds (d : Duration) : Nat :=
  d.nanos / 1000000000

/-- The nanoseconds beyond the whole seconds. -/
def subsecond (d : Duration) : Nat :=
  d.nanos % 1000000000

/-- The least number of milliseconds that lasts at least as long. -/
def ceilMillis (d : Duration) : Nat :=
  (d.nanos + 999999) / 1000000

/-- Whether a span of milliseconds is shorter than the duration. -/
def outlasts (d : Duration) (millis : Nat) : Bool :=
  millis * 1000000 < d.nanos

theorem ceilMillis_le_iff (d : Duration) (n : Nat) : d.ceilMillis ≤ n ↔ d.nanos ≤ n * 1000000 := by
  unfold ceilMillis
  omega

theorem outlasts_eq_false_iff (d : Duration) (n : Nat) :
    d.outlasts n = false ↔ d.nanos ≤ n * 1000000 := by
  unfold outlasts
  rw [decide_eq_false_iff_not, Nat.not_lt]

/-- A duration that does not outlast a span outlasts no longer one. -/
theorem outlasts_of_le {d : Duration} {m n : Nat} (h : d.outlasts m = false) (hle : m ≤ n) :
    d.outlasts n = false := by
  rw [outlasts_eq_false_iff] at *
  exact Nat.le_trans h (Nat.mul_le_mul_right 1000000 hle)

@[simp] theorem ceilMillis_ofMillis (n : Nat) : (ofMillis n).ceilMillis = n := by
  simp only [ceilMillis, ofMillis]
  omega

/-- A count of units with the rest as decimal places, without trailing zeros. -/
def withUnit (whole rest places : Nat) (unit : String) : String :=
  let digits := Nat.toDigits 10 rest
  let padded := List.replicate (places - digits.length) '0' ++ digits
  let fraction := (padded.reverse.dropWhile (· = '0')).reverse
  toString whole ++ (if rest = 0 then "" else "." ++ String.ofList fraction) ++ unit

/-- The text in the largest unit of which there is at least one. -/
def text (d : Duration) : String :=
  if 0 < d.seconds then withUnit d.seconds d.subsecond 9 "s"
  else if 1000000 ≤ d.nanos then withUnit (d.nanos / 1000000) (d.nanos % 1000000) 6 "ms"
  else if 1000 ≤ d.nanos then withUnit (d.nanos / 1000) (d.nanos % 1000) 3 "µs"
  else withUnit d.nanos 0 0 "ns"

end Duration

end NodeFleet
