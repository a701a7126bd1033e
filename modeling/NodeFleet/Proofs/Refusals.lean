import NodeFleet.Proofs.Rounding
import NodeFleet.Quota.Limiter
/-!
Token buckets on doubles. A balance that is brought up to date twice at one moment is as it was
after the first time, for the time that has not passed adds a zero, and adding zero rounds nothing.
So a refusal is firm: whoever asks again at the moment of a refusal leaves the bucket as it is and
is named the same wait.
-/

set_option autoImplicit false
set_option relaxedAutoImplicit false

namespace NodeFleet

open NodeFleet.Number NodeFleet.Quota

namespace Number.Binary

variable {f : Format} {x y : Binary f}

/-! ### Signs -/

theorem negative_ofRat {q : Rat} (h : 0 ≤ q) : (ofRat q : Binary f).negative = false :=
  decide_eq_false h.not_gt

theorem negative_ofNat (n : Nat) : (ofNat n : Binary f).negative = false :=
  negative_ofRat (Nat.cast_nonneg n)

theorem isNaN_ofRat (q : Rat) : (ofRat q : Binary f).isNaN = false := by
  refine decide_eq_false (Nat.not_lt.mpr ?_)
  show nearestPattern f q.num.natAbs q.den ≤ f.infinity
  unfold nearestPattern
  split_ifs
  · exact Nat.zero_le _
  · exact min_le_left _ _

theorem negative_convert {g : Format} (hx : x.negative = false) :
    (x.convert : Binary g).negative = false := by
  unfold convert
  split_ifs
  · rfl
  · exact hx
  · exact hx

theorem negative_add (hx : x.negative = false) (hy : y.negative = false) :
    (x.add y).negative = false := by
  unfold add
  split_ifs
  · rfl
  · rfl
  · exact hx
  · exact hy
  · show (x.negative && y.negative) = false
    rw [hx]
    rfl
  · exact negative_ofRat (add_nonneg (value_nonneg hx) (value_nonneg hy))

theorem negative_mul (hx : x.negative = false) (hy : y.negative = false) :
    (x.mul y).negative = false := by
  unfold mul
  rw [hx, hy]
  split_ifs <;> rfl

theorem negative_div (hx : x.negative = false) (hy : y.negative = false) :
    (x.div y).negative = false := by
  unfold div
  rw [hx, hy]
  split_ifs <;> rfl

theorem negative_min (hx : x.negative = false) (hy : y.negative = false) :
    (x.min y).negative = false := by
  unfold min
  split_ifs
  · exact hy
  · exact hx
  · exact hy
  · exact hx

/-! ### Smaller of two -/

theorem lt_self (x : Binary f) : x.lt x = false := by
  unfold lt le
  split_ifs with hnan
  · rfl
  · cases x.negative <;> simp

theorem min_eq (hy : y.isNaN = false) :
    x.min y = if x.isNaN = true ∨ y.lt x = true then y else x := by
  unfold min
  rw [hy, if_neg Bool.false_ne_true]
  by_cases hx : x.isNaN = true
  · rw [if_pos hx, if_pos (Or.inl hx)]
  · rw [if_neg hx]
    exact if_congr (or_iff_right hx).symm rfl rfl

/-- What is no number is never the smaller of two. -/
theorem isNaN_min (hy : y.isNaN = false) : (x.min y).isNaN = false := by
  rw [min_eq hy]
  split_ifs with h
  · exact hy
  · exact Bool.eq_false_iff.mpr fun hx ↦ h (Or.inl hx)

theorem min_min (hy : y.isNaN = false) : (x.min y).min y = x.min y := by
  have hnot : y.lt (x.min y) = false := by
    rw [min_eq hy]
    split_ifs with h
    · exact lt_self y
    · exact Bool.eq_false_iff.mpr fun hlt ↦ h (Or.inr hlt)
  rw [min_eq (x := x.min y) hy, isNaN_min hy, hnot]
  exact if_neg (by simp)

/-! ### Sums -/

theorem isFinite_iff : x.isFinite = true ↔ x.isNaN = false ∧ x.isInfinite = false := by
  simp only [isFinite, isNaN, isInfinite, decide_eq_true_iff, decide_eq_false_iff_not,
    beq_eq_false_iff_ne]
  omega

theorem add_of_finite (hx : x.isFinite = true) (hy : y.isFinite = true) :
    x.add y = if x.isZero && y.isZero then ⟨x.negative && y.negative, 0⟩
      else ofRat (x.value + y.value) := by
  obtain ⟨hx₁, hx₂⟩ := isFinite_iff.mp hx
  obtain ⟨hy₁, hy₂⟩ := isFinite_iff.mp hy
  unfold add
  rw [hx₁, hx₂, hy₁, hy₂]
  rfl

theorem add_of_infinite (hx : x.isInfinite = true) (hy : y.isFinite = true) : x.add y = x := by
  obtain ⟨hy₁, hy₂⟩ := isFinite_iff.mp hy
  have hnumber : x.isNaN = false := by
    have hsame : x.pattern = f.infinity := by simpa [isInfinite] using hx
    simp [isNaN, hsame]
  unfold add
  rw [hnumber, hx, hy₁, hy₂]
  rfl

/-- A double that is not negative plus zero is itself. -/
theorem add_zero_self {x : Double} (hx : x.negative = false) (hnumber : x.isNaN = false) :
    x.add zero = x := by
  have hfinite : (zero : Double).isFinite = true := by decide +kernel
  have hzero : (zero : Double).value = 0 := by decide +kernel
  by_cases hinf : x.isInfinite = true
  · exact add_of_infinite hinf hfinite
  · have hx' : x.isFinite = true := isFinite_iff.mpr ⟨hnumber, Bool.eq_false_iff.mpr hinf⟩
    rw [add_of_finite hx' hfinite, hzero, add_zero]
    split_ifs with hnull
    · have hpattern : x.pattern = 0 := by
        simpa [isZero] using ((Bool.and_eq_true _ _).mp hnull).1
      rw [hx, ← hpattern, Bool.false_and, ← hx]
    · exact ofRat_value hx' hx

theorem sub_one_of_finite {x : Double} (hfinite : x.isFinite = true) :
    x.sub (ofNat 1) = ofRat (x.value - 1) := by
  have hsmall : (ofNat 1 : Double).neg.isFinite = true := by decide +kernel
  have hminus : (ofNat 1 : Double).neg.value = -1 := by decide +kernel
  have hnull : (ofNat 1 : Double).neg.isZero = false := by decide +kernel
  unfold sub
  rw [add_of_finite hfinite hsmall, hnull, Bool.and_false, if_neg Bool.false_ne_true, hminus,
    ← sub_eq_add_neg]

/-- What is left of a double that reaches one. -/
theorem negative_sub_one {x : Double} (hx : x.negative = false) (hone : (ofNat 1).le x = true) :
    (x.sub (ofNat 1)).negative = false := by
  have hsmall : (ofNat 1 : Double).neg.isFinite = true := by decide +kernel
  have hwhole : (ofNat 1 : Double).magnitude = 1 := by decide +kernel
  unfold le at hone
  split_ifs at hone with hnone
  rw [Bool.or_eq_true, not_or, Bool.not_eq_true, Bool.not_eq_true] at hnone
  rw [show (ofNat 1 : Double).negative = false from rfl, hx] at hone
  have hreached : 1 ≤ x.value := by
    rw [value_of_nonneg hx, ← hwhole]
    exact magnitude_mono (of_decide_eq_true hone)
  by_cases hinf : x.isInfinite = true
  · unfold sub
    rw [add_of_infinite hinf hsmall]
    exact hx
  · rw [sub_one_of_finite (isFinite_iff.mpr ⟨hnone.2, Bool.eq_false_iff.mpr hinf⟩)]
    exact negative_ofRat (sub_nonneg.mpr hreached)

theorem zero_mul_of_finite {x : Double} (hx : x.negative = false) (hfinite : x.isFinite = true) :
    zero.mul x = zero := by
  obtain ⟨hnumber, hinf⟩ := isFinite_iff.mp hfinite
  have hzero : (zero : Double).magnitude = 0 := by decide +kernel
  have hsmall : (zero : Double).isFinite = true := by decide +kernel
  obtain ⟨hzero₁, hzero₂⟩ := isFinite_iff.mp hsmall
  unfold mul
  rw [hnumber, hinf, hzero₁, hzero₂, hzero, zero_mul, hx]
  rfl

/-! ### Beyond all numbers -/

/-- What is positive infinity or no number at all. -/
def IsBeyond (x : Binary f) : Prop :=
  x = nan ∨ x = infinity

theorem IsBeyond.mul (hx : x.negative = false) (hy : y.negative = false)
    (hinf : y.isFinite = false) : (x.mul y).IsBeyond := by
  unfold Binary.mul
  rw [hx, hy]
  split_ifs with hnone hsome
  · exact Or.inl rfl
  · exact Or.inl rfl
  · exact Or.inr rfl
  · rw [Bool.or_eq_true, not_or] at hnone hsome
    have hfinite := isFinite_iff.mpr
      ⟨Bool.eq_false_iff.mpr hnone.2, Bool.eq_false_iff.mpr hsome.2⟩
    rw [hfinite] at hinf
    cases hinf

theorem IsBeyond.add (hx : x.negative = false) (hy : y.IsBeyond) : (x.add y).IsBeyond := by
  unfold Binary.add
  rcases hy with rfl | rfl
  · refine Or.inl (if_pos ?_)
    simp [isNaN, nan]
  · split_ifs with hnone hinf hsign hsign
    · exact Or.inl rfl
    · exact Or.inl rfl
    · refine Or.inr ?_
      have hpattern : x.pattern = f.infinity := by simpa [isInfinite] using hinf
      rw [infinity, ← hx, ← hpattern]
    · exact Or.inr rfl
    · simp [isInfinite, infinity] at hsign
    · simp [isInfinite, infinity] at hsign

/-- Of what is beyond all numbers and a number, the number is the smaller. -/
theorem IsBeyond.min (hx : x.IsBeyond) (hy : y.negative = false) (hnumber : y.isNaN = false) :
    x.min y = y := by
  rw [min_eq hnumber]
  rcases hx with rfl | rfl
  · exact if_pos (Or.inl (by simp [isNaN, nan]))
  · split_ifs with h
    · rfl
    · have hle : y.pattern ≤ f.infinity := Nat.le_of_not_lt (of_decide_eq_false hnumber)
      have hnot : ¬ y.pattern < f.infinity := by
        intro hlt
        refine h (Or.inr ?_)
        have hnumber' : (infinity : Binary f).isNaN = false := decide_eq_false (lt_irrefl _)
        have hgreater : (infinity : Binary f).le y = false := by
          unfold le
          rw [hnumber, hnumber', hy]
          exact decide_eq_false hlt.not_ge
        unfold lt
        rw [hnumber, hnumber', hgreater]
        rfl
      have hpattern : y.pattern = f.infinity := le_antisymm hle (Nat.le_of_not_lt hnot)
      rw [infinity, ← hpattern, ← hy]

end Number.Binary

namespace Quota.Bucket

/-- A bucket as it is from its first moment on: no part of it is negative, and its capacity is a
number. -/
structure Regular (b : Bucket Double) : Prop where
  tokens : b.tokens.negative = false
  capacity : b.capacity.negative = false
  number : b.capacity.isNaN = false
  rate : b.rate.negative = false

theorem negative_seconds (millis : Nat) : (Balance.seconds millis : Double).negative = false :=
  Binary.negative_add (Binary.negative_ofNat _)
    (Binary.negative_div (Binary.negative_ofNat _) (Binary.negative_ofNat _))

namespace Regular

variable {b : Bucket Double}

theorem refill (h : b.Regular) (now : Nat) : (b.refill now).Regular :=
  ⟨Binary.negative_min (Binary.negative_add h.tokens
    (Binary.negative_mul (negative_seconds _) h.rate)) h.capacity, h.capacity, h.number, h.rate⟩

/-- Whatever has been earned, a rate that is no finite number fills the bucket. -/
theorem refill_of_infinite (h : b.Regular) (hrate : b.rate.isFinite = false) (now : Nat) :
    b.refill now = { b with tokens := b.capacity, refilledAt := now } := by
  have hearned := Binary.IsBeyond.mul (negative_seconds (now - b.refilledAt)) h.rate hrate
  have hfull := (Binary.IsBeyond.add h.tokens hearned).min h.capacity h.number
  exact congrArg (fun tokens ↦ { b with tokens, refilledAt := now }) hfull

/-- A second refill at the same moment changes nothing. -/
theorem refill_refill (h : b.Regular) (now : Nat) : (b.refill now).refill now = b.refill now := by
  by_cases hrate : b.rate.isFinite = true
  · have hearned : (Balance.mul (Balance.seconds (now - now)) b.rate : Double) = .zero := by
      have hzero : (Balance.seconds 0 : Double) = .zero := by decide +kernel
      rw [Nat.sub_self, hzero]
      exact Binary.zero_mul_of_finite h.rate hrate
    have hsum : Balance.add (b.refill now).tokens (.zero : Double) = (b.refill now).tokens :=
      Binary.add_zero_self (h.refill now).tokens (Binary.isNaN_min h.number)
    have hmin : Balance.min (b.refill now).tokens b.capacity = (b.refill now).tokens :=
      Binary.min_min h.number
    show { b.refill now with
      tokens := Balance.min (Balance.add (b.refill now).tokens
        (Balance.mul (Balance.seconds (now - now)) b.rate)) b.capacity } = b.refill now
    rw [hearned, hsum, hmin]
  · have hinf : b.rate.isFinite = false := Bool.eq_false_iff.mpr hrate
    rw [(h.refill now).refill_of_infinite hinf, h.refill_of_infinite hinf]

theorem take (h : b.Regular) (now : Nat) : (b.take now).1.Regular := by
  have hfull := h.refill now
  unfold Bucket.take
  dsimp only
  split_ifs with hone
  · exact ⟨Binary.negative_sub_one hfull.tokens hone, hfull.capacity, hfull.number, hfull.rate⟩
  · exact hfull

/-- Asked again at the moment of a refusal, a bucket refuses again and stays as it is. -/
theorem take_take (h : b.Regular) {now : Nat} {wait : Duration}
    (hwait : (b.take now).2 = some wait) :
    (b.take now).1.take now = ((b.take now).1, some wait) := by
  by_cases hone : Balance.le (Balance.ofNat 1) (b.refill now).tokens = true
  · unfold Bucket.take at hwait
    rw [if_pos hone] at hwait
    cases hwait
  · have hrefused : b.take now = (b.refill now, some (b.refill now).shortfall) := if_neg hone
    rw [hrefused] at hwait ⊢
    unfold Bucket.take
    dsimp only at hwait ⊢
    rw [h.refill_refill, if_neg hone, hwait]

end Regular

theorem regular_new {qps : Single} (h : Binary.zero.lt qps = true) (burst : UInt32) (now : Nat) :
    (new qps burst now : Bucket Double).Regular :=
  ⟨Binary.negative_ofNat _, Binary.negative_ofNat _, Binary.isNaN_ofRat _,
    Binary.negative_convert (Binary.negative_of_lt h)⟩

end Quota.Bucket

namespace Quota.Limiter

/-- A limiter whose bucket for reading, if it has one, is as it is from its first moment on. -/
def Regular (l : Limiter Double) : Prop :=
  ∀ b, l.read = some b → b.Regular

theorem regular_new (category : Category) (s : Settings) (now : Nat) :
    (new category s now : Limiter Double).Regular := by
  intro b hb
  unfold new bucket? at hb
  dsimp only at hb
  split_ifs at hb with hlimited
  obtain rfl := Option.some.inj hb
  exact Bucket.regular_new ((Bool.and_eq_true _ _).mp hlimited).2 s.bucket now

namespace Regular

variable {l : Limiter Double}

theorem take (h : l.Regular) (now : Nat) : (l.take now .read).1.Regular := by
  unfold Limiter.take
  dsimp only [bucket]
  cases hread : l.read with
  | none => exact h
  | some b =>
    intro b' hb'
    obtain rfl := Option.some.inj hb'
    exact (h b hread).take now

theorem take_take (h : l.Regular) {now : Nat} {wait : Duration}
    (hwait : (l.take now .read).2 = some wait) :
    (l.take now .read).1.take now .read = ((l.take now .read).1, some wait) := by
  unfold Limiter.take at hwait ⊢
  dsimp only [bucket] at hwait ⊢
  cases hread : l.read with
  | none =>
    rw [hread] at hwait
    cases hwait
  | some b =>
    rw [hread] at hwait
    have hagain := (h b hread).take_take hwait
    dsimp only [withBucket]
    rw [hagain]

end Regular

end Quota.Limiter

end NodeFleet
