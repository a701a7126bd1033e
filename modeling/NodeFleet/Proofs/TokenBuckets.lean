import Mathlib.Algebra.Order.Field.Rat
import Mathlib.Tactic.Linarith
import Mathlib.Tactic.Ring
import Mathlib.Tactic.SplitIfs
import NodeFleet.Quota.Bucket
/-!
Token buckets on exact rationals. The level of a bucket is its balance brought up to date: it grows
with the time that passes, up to the capacity, and a bucket that is asked loses one token of its
level if that holds a whole one, and otherwise nothing.
-/

set_option autoImplicit false
set_option relaxedAutoImplicit false

namespace NodeFleet

namespace Number.Binary

variable {f : Format}

theorem magnitude_nonneg (x : Binary f) : 0 ≤ x.magnitude :=
  mul_nonneg (Nat.cast_nonneg _) (zpow_nonneg (by norm_num) _)

/-- A number above zero has the sign and the pattern of one. -/
theorem positive_of_lt {x : Binary f} (h : zero.lt x = true) :
    x.negative = false ∧ x.pattern ≠ 0 := by
  unfold lt at h
  split_ifs at h with hnan
  have hle : x.le zero = match x.negative with
      | false => decide (x.pattern ≤ 0)
      | true => true := by
    unfold le
    rw [Bool.or_comm, if_neg hnan]
    cases x.negative <;> rfl
  rw [hle] at h
  cases hnegative : x.negative with
  | true =>
    rw [hnegative] at h
    cases h
  | false =>
    refine ⟨rfl, fun hzero ↦ ?_⟩
    rw [hnegative, hzero] at h
    cases h

theorem negative_of_lt {x : Binary f} (h : zero.lt x = true) : x.negative = false :=
  (positive_of_lt h).1

theorem value_nonneg {x : Binary f} (h : x.negative = false) : 0 ≤ x.value := by
  unfold value
  rw [h]
  exact x.magnitude_nonneg

end Number.Binary

namespace Quota.Bucket

/-- The balance brought up to date. -/
def level (b : Bucket Rat) (now : Nat) : Rat :=
  (b.refill now).tokens

theorem level_eq (b : Bucket Rat) (now : Nat) :
    b.level now = min (b.tokens + (now - b.refilledAt : Nat) / 1000 * b.rate) b.capacity := by
  have hearned : (mkRat (now - b.refilledAt : Nat) 1000 : Rat) =
      (now - b.refilledAt : Nat) / 1000 := by
    rw [Rat.mkRat_eq_div, Int.cast_natCast, Nat.cast_ofNat]
  rw [← hearned, min_def]
  rfl

theorem level_of_refilled {b : Bucket Rat} {now : Nat} (h : b.refilledAt = now)
    (hle : b.tokens ≤ b.capacity) : b.level now = b.tokens := by
  rw [level_eq, h, Nat.sub_self, Nat.cast_zero, zero_div, zero_mul, add_zero]
  exact min_eq_left hle

/-- A bucket as it is from its first moment on. -/
structure Sound (b : Bucket Rat) (now : Nat) : Prop where
  nonneg : 0 ≤ b.tokens
  le_capacity : b.tokens ≤ b.capacity
  rate : 0 ≤ b.rate
  past : b.refilledAt ≤ now

variable {b : Bucket Rat} {now : Nat}

namespace Sound

theorem level_nonneg (h : b.Sound now) (later : Nat) : 0 ≤ b.level later := by
  have hearned : 0 ≤ (later - b.refilledAt : Nat) / 1000 * b.rate :=
    mul_nonneg (div_nonneg (Nat.cast_nonneg _) (by norm_num)) h.rate
  rw [level_eq]
  exact le_min (add_nonneg h.nonneg hearned) (h.nonneg.trans h.le_capacity)

theorem refill (h : b.Sound now) : (b.refill now).Sound now :=
  ⟨h.level_nonneg now, by
    show b.level now ≤ b.capacity
    rw [level_eq]
    exact min_le_right _ _, h.rate, Nat.le_refl now⟩

theorem mono (h : b.Sound now) {later : Nat} (hle : now ≤ later) : b.Sound later :=
  ⟨h.nonneg, h.le_capacity, h.rate, h.past.trans hle⟩

/-- Time that passes is paid for at the rate, up to the capacity. -/
theorem level_elapse (h : b.Sound now) (millis : Nat) :
    b.level (now + millis) = min (b.level now + millis / 1000 * b.rate) b.capacity := by
  have hearned : 0 ≤ (millis : Rat) / 1000 * b.rate :=
    mul_nonneg (div_nonneg (Nat.cast_nonneg _) (by norm_num)) h.rate
  have hspan : ((now + millis - b.refilledAt : Nat) : Rat) =
      (now - b.refilledAt : Nat) + millis := by
    rw [Nat.sub_add_comm h.past]
    exact Nat.cast_add _ _
  rw [level_eq, level_eq, hspan]
  have hsum : b.tokens + ((now - b.refilledAt : Nat) + millis : Rat) / 1000 * b.rate =
      b.tokens + (now - b.refilledAt : Nat) / 1000 * b.rate + millis / 1000 * b.rate := by
    ring
  have hfull : min (b.capacity + millis / 1000 * b.rate) b.capacity = b.capacity :=
    min_eq_right (le_add_of_nonneg_right hearned)
  rw [hsum, ← min_add_add_right, min_assoc, hfull]

end Sound

/-- A bucket that holds a whole token gives it; otherwise it is only brought up to date. -/
theorem take_eq (b : Bucket Rat) (now : Nat) :
    b.take now =
      if 1 ≤ b.level now then ({ b.refill now with tokens := b.level now - 1 }, none)
      else (b.refill now, some (b.refill now).shortfall) := by
  have hone : (Balance.ofNat 1 : Rat) = 1 := Nat.cast_one
  have hle : Balance.le (1 : Rat) (b.refill now).tokens = decide (1 ≤ b.level now) := rfl
  have hsub : Balance.sub (b.refill now).tokens (1 : Rat) = b.level now - 1 := rfl
  unfold take
  dsimp only
  rw [hone, hle, hsub]
  by_cases hwhole : 1 ≤ b.level now
  · rw [if_pos hwhole, if_pos (decide_eq_true hwhole)]
  · rw [if_neg hwhole, if_neg (by simpa using hwhole)]

/-- A whole token is taken, or nothing. -/
theorem Sound.take (h : b.Sound now) :
    (b.take now).1.Sound now ∧ (b.take now).1.capacity = b.capacity ∧
      (b.take now).1.rate = b.rate ∧
      (b.take now).1.level now = b.level now - (if 1 ≤ b.level now then 1 else 0) := by
  have hfull := h.refill
  rw [take_eq]
  split_ifs with hwhole
  · have hle : b.level now - 1 ≤ b.capacity :=
      (sub_le_self _ zero_le_one).trans hfull.le_capacity
    exact ⟨⟨sub_nonneg.mpr hwhole, hle, hfull.rate, hfull.past⟩, rfl, rfl,
      level_of_refilled rfl hle⟩
  · refine ⟨hfull, rfl, rfl, ?_⟩
    rw [sub_zero]
    exact level_of_refilled rfl hfull.le_capacity

theorem isNone_take (b : Bucket Rat) (now : Nat) :
    (b.take now).2 = none ↔ 1 ≤ b.level now := by
  rw [take_eq]
  split_ifs with hwhole
  · exact iff_of_true rfl hwhole
  · exact iff_of_false (fun h ↦ by cases h) hwhole

theorem sound_new {qps : Number.Single} (h : Number.Binary.zero.lt qps = true) (burst : UInt32)
    (now : Nat) : (new qps burst now : Bucket Rat).Sound now :=
  ⟨Nat.cast_nonneg _, le_rfl, Number.Binary.value_nonneg (Number.Binary.negative_of_lt h),
    Nat.le_refl now⟩

end Quota.Bucket

end NodeFleet
