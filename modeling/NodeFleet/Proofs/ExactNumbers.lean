import NodeFleet.Proofs.Refusals
/-!
What rounding keeps. A significand that fits stands for a number at every exponent of the format,
and what a format holds is rounded to itself: so are whole numbers that fit, one less than a number
that is not too large, and the numbers of a narrower format. What is no smaller than a number is not
rounded to a smaller one, so that nothing is lost by adding what is not negative.
-/

set_option autoImplicit false
set_option relaxedAutoImplicit false

namespace NodeFleet.Number

/-! ### Rounding keeps the order -/

theorem le_divideToEven {n d s : Nat} (hd : 0 < d) (h : s * d ≤ n) : s ≤ divideToEven n d := by
  have hquotient : s ≤ n / d := (Nat.le_div_iff_mul_le hd).mpr h
  unfold divideToEven
  dsimp only
  split_ifs
  · exact hquotient
  · exact hquotient.trans (Nat.le_succ _)
  · exact hquotient.trans (Nat.le_add_right _ _)

theorem le_divideToEven_scaled {n d s : Nat} {e : Int} (hd : 0 < d)
    (h : (s : Rat) * 2 ^ e ≤ n / d) :
    s ≤ if 0 ≤ e then divideToEven n (d * Nat.pow 2 e.toNat)
      else divideToEven (n * Nat.pow 2 (-e).toNat) d := by
  have hpos : (0 : Rat) < d := Nat.cast_pos.mpr hd
  rw [le_div_iff₀ hpos] at h
  split_ifs with he
  · obtain ⟨j, rfl⟩ := Int.eq_ofNat_of_zero_le he
    rw [zpow_natCast] at h
    refine le_divideToEven (Nat.mul_pos hd (Nat.pow_pos two_pos)) ?_
    have hcast : ((s * (d * 2 ^ j) : Nat) : Rat) ≤ n := by
      push_cast
      linarith
    exact_mod_cast hcast
  · obtain ⟨j, hj⟩ := Int.eq_ofNat_of_zero_le (Int.neg_nonneg_of_nonpos (Int.le_of_not_le he))
    obtain rfl : e = -(j : Int) := by omega
    have hpow : (0 : Rat) < 2 ^ j := by positivity
    refine le_divideToEven hd ?_
    have hcast : ((s * d : Nat) : Rat) ≤ (n * 2 ^ j : Nat) := by
      rw [zpow_neg, zpow_natCast, mul_right_comm, ← div_eq_mul_inv, div_le_iff₀ hpow] at h
      push_cast
      exact h
    rw [Int.neg_neg, Int.toNat_natCast]
    exact_mod_cast hcast

namespace Binary

variable {f : Format} {x y : Binary f} {q : Rat}

theorem le_nearestPattern (hx : x.isFinite = true) {n d : Nat} (hd : 0 < d)
    (h : x.magnitude ≤ n / d) : x.pattern ≤ nearestPattern f n d := by
  obtain ⟨hleast, hlt, -, hpattern⟩ := x.parts_spec
  rcases Nat.eq_zero_or_pos n with rfl | hn
  · have hzero : x.magnitude = 0 := by
      rw [Nat.cast_zero, zero_div] at h
      exact h.antisymm x.magnitude_nonneg
    refine (nearestPattern_of_eq hx hd ?_).ge
    rw [hzero, Nat.cast_zero, zero_div]
  · obtain ⟨hreached, -⟩ := floorLog_bounds hn hd
    have hexponent := parts_le_floorLog hn hd h
    unfold nearestPattern
    rw [if_neg hn.ne']
    dsimp only
    refine le_min (of_decide_eq_true hx : x.pattern < f.infinity).le ?_
    rw [hpattern, Nat.pow_eq]
    generalize he : max f.least (floorLog n d - f.fractionBits) = e
    have hle : x.parts.2 ≤ e := by omega
    rcases hle.eq_or_lt with hsame | hbelow
    · rw [hsame]
      refine Nat.add_le_add_left (le_divideToEven_scaled hd ?_) _
      rw [← hsame]
      exact h
    · -- a larger exponent alone makes a larger pattern
      have hwhole : ((2 ^ f.fractionBits : Nat) : Rat) * 2 ^ e ≤ n / d := by
        have hlog : (f.fractionBits : Int) + e = floorLog n d := by omega
        rw [Nat.cast_pow, Nat.cast_ofNat, ← zpow_natCast, ← zpow_add₀ two_ne_zero, hlog]
        exact hreached
      have hsignificand := le_divideToEven_scaled hd hwhole
      have hscale : (x.parts.2 - f.least).toNat + 1 ≤ (e - f.least).toNat := by omega
      have hscaled := Nat.mul_le_mul_right (2 ^ f.fractionBits) hscale
      rw [Nat.add_mul, Nat.one_mul] at hscaled
      omega

theorem le_ofRat (hx : x.isFinite = true) (hneg : x.negative = false) (h : x.value ≤ q) :
    x.pattern ≤ (ofRat q : Binary f).pattern := by
  refine le_nearestPattern hx q.den_pos ?_
  rw [natAbs_div_den ((value_nonneg hneg).trans h), ← value_of_nonneg hneg]
  exact h

/-- Patterns are ordered as the values are. -/
theorem pattern_le_iff (hx : x.isFinite = true) (hxneg : x.negative = false)
    (hy : y.isFinite = true) (hyneg : y.negative = false) :
    x.pattern ≤ y.pattern ↔ x.value ≤ y.value := by
  constructor
  · intro h
    rw [value_of_nonneg hxneg, value_of_nonneg hyneg]
    exact magnitude_mono h
  · intro h
    have hrounded := le_ofRat hx hxneg h
    rwa [ofRat_value hy hyneg] at hrounded

theorem le_eq (hx : x.isNaN = false) (hxneg : x.negative = false) (hy : y.isNaN = false)
    (hyneg : y.negative = false) : x.le y = decide (x.pattern ≤ y.pattern) := by
  unfold le
  rw [hx, hy, hxneg, hyneg]
  rfl

theorem le_iff (hx : x.isFinite = true) (hxneg : x.negative = false) (hy : y.isFinite = true)
    (hyneg : y.negative = false) : x.le y = true ↔ x.value ≤ y.value := by
  rw [le_eq (isFinite_iff.mp hx).1 hxneg (isFinite_iff.mp hy).1 hyneg, decide_eq_true_iff,
    pattern_le_iff hx hxneg hy hyneg]

theorem isNaN_of_lt (h : y.lt x = true) : x.isNaN = false := by
  unfold lt at h
  split_ifs at h with hnone
  exact Bool.eq_false_iff.mpr fun hx ↦ hnone ((Bool.or_eq_true _ _).mpr (Or.inr hx))

/-- Nothing is lost by adding what is not negative, if a number comes of it. -/
theorem le_add (hx : x.isFinite = true) (hxneg : x.negative = false) (hyneg : y.negative = false)
    (h : (x.add y).isNaN = false) : x.pattern ≤ (x.add y).pattern := by
  have hbelow : x.pattern < f.infinity := of_decide_eq_true hx
  by_cases hy : y.isFinite = true
  · rw [add_of_finite hx hy]
    split_ifs with hzero
    · have hpattern : x.pattern = 0 := by
        simpa [isZero] using ((Bool.and_eq_true _ _).mp hzero).1
      exact hpattern.le
    · exact le_ofRat hx hxneg (le_add_of_nonneg_right (value_nonneg hyneg))
  · obtain ⟨hx₁, hx₂⟩ := isFinite_iff.mp hx
    unfold add at h ⊢
    rw [hx₁, hx₂, Bool.false_or] at h ⊢
    by_cases hnone : y.isNaN = true
    · rw [if_pos hnone] at h
      simp [isNaN, nan] at h
    · have hinf : y.isInfinite = true := by
        simpa [isFinite_iff, Bool.eq_false_iff.mpr hnone] using hy
      rw [if_neg hnone, if_neg Bool.false_ne_true, if_pos hinf]
      have hpattern : y.pattern = f.infinity := by simpa [isInfinite] using hinf
      exact hpattern ▸ hbelow.le

/-- The smaller of two numbers has the smaller pattern. -/
theorem pattern_min (hx : x.isNaN = false) (hxneg : x.negative = false) (hy : y.isNaN = false)
    (hyneg : y.negative = false) : (x.min y).pattern = Min.min x.pattern y.pattern := by
  have hlt : y.lt x = decide (y.pattern < x.pattern) := by
    unfold lt
    rw [hx, hy, le_eq hx hxneg hy hyneg, ← decide_not]
    exact decide_eq_decide.mpr Nat.not_le
  unfold min
  rw [hx, hy, hlt]
  by_cases h : y.pattern < x.pattern
  · simp [h, h.le]
  · simp [h, Nat.le_of_not_lt h]

/-- A sum with what is not negative, cut to a bound, lies between the number and the bound. -/
theorem le_min_add {z : Binary f} (hx : x.isFinite = true) (hxneg : x.negative = false)
    (hyneg : y.negative = false) (hz : z.isNaN = false) (hzneg : z.negative = false)
    (hle : x.pattern ≤ z.pattern) :
    x.pattern ≤ ((x.add y).min z).pattern ∧ ((x.add y).min z).pattern ≤ z.pattern := by
  by_cases hnone : (x.add y).isNaN = true
  · rw [min_eq hz, if_pos (Or.inl hnone)]
    exact ⟨hle, le_rfl⟩
  · have hsum : (x.add y).isNaN = false := Bool.eq_false_iff.mpr hnone
    rw [pattern_min hsum (negative_add hxneg hyneg) hz hzneg]
    exact ⟨le_min (le_add hx hxneg hyneg hsum) hle, min_le_right _ _⟩

end Binary

/-! ### What a format holds -/

/-- Whether a format has a number of this value that is not negative. -/
def Format.Holds (f : Format) (q : Rat) : Prop :=
  ∃ x : Binary f, x.isFinite = true ∧ x.negative = false ∧ x.value = q

namespace Binary

variable {f : Format} {x : Binary f} {q : Rat}

theorem magnitude_le_infinity (hx : x.isFinite = true) :
    x.magnitude ≤ (infinity : Binary f).magnitude :=
  magnitude_mono (of_decide_eq_true hx : x.pattern < f.infinity).le

/-- What a format holds is not rounded. -/
theorem ofRat_of_holds (h : f.Holds q) :
    (ofRat q : Binary f).isFinite = true ∧ (ofRat q : Binary f).value = q := by
  obtain ⟨x, hfinite, hneg, rfl⟩ := h
  rw [ofRat_value hfinite hneg]
  exact ⟨hfinite, rfl⟩

theorem parts_mk {s k : Nat} (hs : s < 2 * 2 ^ f.fractionBits)
    (h : k = 0 ∨ 2 ^ f.fractionBits ≤ s) :
    (⟨false, k * 2 ^ f.fractionBits + s⟩ : Binary f).parts = (s, f.least + k) := by
  have hpos : 0 < 2 ^ f.fractionBits := by positivity
  unfold parts
  dsimp only
  rw [Nat.pow_eq]
  by_cases hnormal : 2 ^ f.fractionBits ≤ s
  · obtain ⟨r, rfl⟩ := Nat.exists_eq_add_of_le hnormal
    have hr : r < 2 ^ f.fractionBits := by omega
    have hpattern : k * 2 ^ f.fractionBits + (2 ^ f.fractionBits + r) =
        r + 2 ^ f.fractionBits * (k + 1) := by ring
    rw [hpattern, Nat.add_mul_mod_self_left, Nat.mod_eq_of_lt hr, Nat.add_mul_div_left _ _ hpos,
      Nat.div_eq_of_lt hr, Nat.zero_add, if_neg k.succ_ne_zero]
    refine Prod.ext rfl ?_
    show f.least + ((k + 1 : Nat) : Int) - 1 = f.least + k
    omega
  · obtain rfl : k = 0 := h.resolve_right hnormal
    have hlow : s < 2 ^ f.fractionBits := Nat.lt_of_not_le hnormal
    rw [Nat.zero_mul, Nat.zero_add, Nat.mod_eq_of_lt hlow, Nat.div_eq_of_lt hlow, if_pos rfl]
    refine Prod.ext rfl ?_
    show f.least = f.least + ((0 : Nat) : Int)
    omega

theorem exists_magnitude_eq {s : Nat} (hs : s < 2 * 2 ^ f.fractionBits) (k : Nat) :
    ∃ x : Binary f, x.negative = false ∧ x.magnitude = s * 2 ^ (f.least + k) := by
  induction k generalizing s with
  | zero =>
    refine ⟨⟨false, 0 * 2 ^ f.fractionBits + s⟩, rfl, ?_⟩
    unfold magnitude
    rw [parts_mk hs (Or.inl rfl)]
  | succ k ih =>
    by_cases hnormal : 2 ^ f.fractionBits ≤ s
    · refine ⟨⟨false, (k + 1) * 2 ^ f.fractionBits + s⟩, rfl, ?_⟩
      unfold magnitude
      rw [parts_mk hs (Or.inr hnormal)]
    · -- a significand below the normal ones has room to be doubled
      obtain ⟨x, hneg, hx⟩ := ih (s := 2 * s) (by omega)
      have hexponent : f.least + ((k + 1 : Nat) : Int) = f.least + k + 1 := by omega
      refine ⟨x, hneg, ?_⟩
      rw [hx, hexponent, zpow_add_one₀ two_ne_zero]
      push_cast
      ring

theorem holds_of_lt {s k : Nat} (hs : s < 2 * 2 ^ f.fractionBits)
    (h : (s : Rat) * 2 ^ (f.least + k) < (infinity : Binary f).magnitude) :
    f.Holds (s * 2 ^ (f.least + k)) := by
  obtain ⟨x, hneg, hx⟩ := exists_magnitude_eq hs k
  refine ⟨x, decide_eq_true (Nat.lt_of_not_le fun hle ↦ ?_), hneg, ?_⟩
  · have hbeyond : (infinity : Binary f).magnitude ≤ x.magnitude := magnitude_mono hle
    exact (hx ▸ h).not_ge hbeyond
  · rw [value_of_nonneg hneg, hx]

theorem holds_natCast {n : Nat} (hleast : f.least ≤ 0) (hn : n < 2 * 2 ^ f.fractionBits)
    (h : (n : Rat) < (infinity : Binary f).magnitude) : f.Holds n := by
  have hunit : f.least + (-f.least).toNat = 0 := by omega
  have hvalue : (n : Rat) = n * 2 ^ (f.least + (-f.least).toNat) := by
    rw [hunit, zpow_zero, mul_one]
  rw [hvalue] at h ⊢
  exact holds_of_lt hn h

/-- The unit of a number below the first power of two beyond the significands goes into one. -/
theorem parts_nonpos (hleast : f.least ≤ 0)
    (h : x.magnitude < (2 * 2 ^ f.fractionBits : Nat)) : x.parts.2 ≤ 0 := by
  obtain ⟨-, -, hnormal, -⟩ := x.parts_spec
  by_contra hpos
  have htwo : (2 : Rat) ≤ 2 ^ x.parts.2 := by
    have hle : (2 : Rat) ^ (1 : Int) ≤ 2 ^ x.parts.2 := zpow_le_zpow_right₀ one_le_two (by omega)
    rwa [zpow_one] at hle
  have hwhole : ((2 ^ f.fractionBits : Nat) : Rat) ≤ x.parts.1 := by
    exact_mod_cast hnormal (by omega)
  refine h.not_ge ?_
  rw [Nat.mul_comm, Nat.cast_mul]
  exact mul_le_mul hwhole htwo (by norm_num) (Nat.cast_nonneg _)

/-- One is a multiple of the unit of such a number, so it can be taken from it without rounding. -/
theorem holds_sub_one (hleast : f.least ≤ 0) (hx : x.isFinite = true) (hneg : x.negative = false)
    (hone : 1 ≤ x.value) (hlt : x.value < (2 * 2 ^ f.fractionBits : Nat)) :
    f.Holds (x.value - 1) := by
  rw [value_of_nonneg hneg] at hone hlt ⊢
  have hbelow := magnitude_le_infinity hx
  have hunit := parts_nonpos hleast hlt
  obtain ⟨hge, hfits, -, -⟩ := x.parts_spec
  rw [show x.magnitude = x.parts.1 * 2 ^ x.parts.2 from rfl] at hone hbelow ⊢
  generalize x.parts.1 = s at *
  generalize x.parts.2 = e at *
  obtain ⟨j, rfl⟩ : ∃ j : Nat, e = -(j : Int) := ⟨(-e).toNat, by omega⟩
  have hpow : (2 : Rat) ^ (j : Int) * 2 ^ (-(j : Int)) = 1 := by
    rw [← zpow_add₀ two_ne_zero, add_neg_cancel, zpow_zero]
  have hunits : 2 ^ j ≤ s := by
    have hcast : ((2 ^ j : Nat) : Rat) ≤ s := by
      rw [← mul_le_mul_iff_left₀ (zpow_pos two_pos (-(j : Int)) : (0 : Rat) < _)]
      push_cast
      rw [← zpow_natCast, hpow]
      exact hone
    exact_mod_cast hcast
  have hvalue : (s : Rat) * 2 ^ (-(j : Int)) - 1 = (s - 2 ^ j : Nat) * 2 ^ (-(j : Int)) := by
    rw [Nat.cast_sub hunits, sub_mul, Nat.cast_pow, Nat.cast_ofNat, ← zpow_natCast, hpow]
  have hexponent : f.least + (-(j : Int) - f.least).toNat = -(j : Int) := by omega
  rw [hvalue, ← hexponent]
  refine holds_of_lt ((Nat.sub_le _ _).trans_lt hfits) ?_
  rw [hexponent, ← hvalue]
  exact (sub_one_lt _).trans_le hbelow

/-- A format with longer significands and a wider range holds the numbers of a narrower one. -/
theorem holds_value {g : Format} (hbits : f.fractionBits ≤ g.fractionBits)
    (hleast : g.least ≤ f.least)
    (hrange : (infinity : Binary f).magnitude < (infinity : Binary g).magnitude)
    (hx : x.isFinite = true) (hneg : x.negative = false) : g.Holds x.value := by
  have hbelow := magnitude_le_infinity hx
  obtain ⟨hge, hfits, -, -⟩ := x.parts_spec
  have hwider : 2 ^ f.fractionBits ≤ 2 ^ g.fractionBits := Nat.pow_le_pow_right two_pos hbits
  have hexponent : g.least + (x.parts.2 - g.least).toNat = x.parts.2 := by omega
  have hvalue : x.value = x.parts.1 * 2 ^ (g.least + (x.parts.2 - g.least).toNat) := by
    rw [value_of_nonneg hneg, hexponent]
    rfl
  rw [hvalue]
  refine holds_of_lt (by omega) ?_
  rw [← hvalue, value_of_nonneg hneg]
  exact hbelow.trans_lt hrange

theorem isZero_of_pos (h : 0 < x.value) : x.isZero = false := by
  refine Bool.eq_false_iff.mpr fun hzero ↦ h.ne' ?_
  have hpattern : x.pattern = 0 := by simpa [isZero] using hzero
  simp [value, magnitude, parts, hpattern]

/-- A quotient of a finite number that is not zero is a number. -/
theorem isNaN_div {y : Binary f} (hx : x.isNaN = false) (hy : y.isFinite = true)
    (hzero : y.isZero = false) : (x.div y).isNaN = false := by
  obtain ⟨hnumber, hinf⟩ := isFinite_iff.mp hy
  unfold div
  rw [hx, hnumber, hinf, hzero]
  simp only [Bool.or_self, Bool.false_eq_true, if_false]
  split_ifs
  · exact decide_eq_false (lt_irrefl _)
  · exact isNaN_ofRat _

theorem convert_of_finite {g : Format} (hx : x.isFinite = true) (hneg : x.negative = false) :
    (x.convert : Binary g) = ofRat x.value := by
  obtain ⟨hnumber, hinf⟩ := isFinite_iff.mp hx
  have hsign := negative_ofRat (f := g) x.magnitude_nonneg
  unfold convert
  rw [hnumber, hinf, if_neg Bool.false_ne_true, if_neg Bool.false_ne_true, hneg,
    value_of_nonneg hneg, ← hsign]

end Binary

end NodeFleet.Number
