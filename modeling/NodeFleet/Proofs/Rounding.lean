import Mathlib.Algebra.Order.Field.Power
import Mathlib.Tactic.FieldSimp
import NodeFleet.Proofs.TokenBuckets
/-!
Rounding what needs no rounding. A positive quotient lies between the power of two that is found for
it and the next one, a multiple of the divisor is divided exactly, and so a finite number that is
not negative is the number nearest to its own value: whoever adds zero to it gets it back. Patterns
are ordered as the magnitudes for which they stand.
-/

set_option autoImplicit false
set_option relaxedAutoImplicit false

namespace NodeFleet.Number

/-! ### Powers of two -/

theorem log2_bounds {n : Nat} (h : 0 < n) :
    (2 : Rat) ^ (n.log2 : Int) ≤ n ∧ (n : Rat) < (2 : Rat) ^ (n.log2 + 1 : Int) := by
  have hlower : 2 ^ n.log2 ≤ n := Nat.log2_self_le h.ne'
  have hupper : n < 2 ^ (n.log2 + 1) := Nat.lt_log2_self
  constructor
  · rw [zpow_natCast]
    exact_mod_cast hlower
  · rw [show (n.log2 + 1 : Int) = ((n.log2 + 1 : Nat) : Int) from rfl, zpow_natCast]
    exact_mod_cast hupper

/-- Whether a quotient reaches a power of two, asked of whole numbers. -/
theorem zpow_le_div_iff {n d : Nat} (hd : 0 < d) (k : Int) :
    (if 0 ≤ k then decide (d * Nat.pow 2 k.toNat ≤ n)
      else decide (d ≤ n * Nat.pow 2 (-k).toNat)) = true ↔ (2 : Rat) ^ k ≤ n / d := by
  have hpos : (0 : Rat) < d := Nat.cast_pos.mpr hd
  rw [le_div_iff₀ hpos]
  split_ifs with hk
  · obtain ⟨j, rfl⟩ := Int.eq_ofNat_of_zero_le hk
    rw [decide_eq_true_iff, Nat.pow_eq, Int.toNat_natCast, zpow_natCast, mul_comm]
    exact_mod_cast Iff.rfl
  · obtain ⟨j, hj⟩ := Int.eq_ofNat_of_zero_le (Int.neg_nonneg_of_nonpos (Int.le_of_not_le hk))
    obtain rfl : k = -(j : Int) := by omega
    have hpow : (0 : Rat) < 2 ^ j := by positivity
    rw [decide_eq_true_iff, Nat.pow_eq, Int.neg_neg, Int.toNat_natCast, zpow_neg, zpow_natCast,
      inv_mul_le_iff₀ hpow, mul_comm n]
    exact_mod_cast Iff.rfl

theorem floorLog_bounds {n d : Nat} (hn : 0 < n) (hd : 0 < d) :
    (2 : Rat) ^ floorLog n d ≤ n / d ∧ (n : Rat) / d < 2 ^ (floorLog n d + 1) := by
  have hpos : (0 : Rat) < d := Nat.cast_pos.mpr hd
  have hpow : ∀ k : Int, (0 : Rat) < 2 ^ k := fun k ↦ zpow_pos two_pos k
  obtain ⟨hn₁, hn₂⟩ := log2_bounds hn
  obtain ⟨hd₁, hd₂⟩ := log2_bounds hd
  have hbelow : (2 : Rat) ^ ((n.log2 : Int) - d.log2 - 1) ≤ n / d := by
    rw [le_div_iff₀ hpos]
    calc (2 : Rat) ^ ((n.log2 : Int) - d.log2 - 1) * d
        ≤ 2 ^ ((n.log2 : Int) - d.log2 - 1) * 2 ^ (d.log2 + 1 : Int) :=
          mul_le_mul_of_nonneg_left hd₂.le (hpow _).le
      _ = 2 ^ (n.log2 : Int) := by
          rw [← zpow_add₀ two_ne_zero]
          congr 1
          omega
      _ ≤ n := hn₁
  have habove : (n : Rat) / d < 2 ^ ((n.log2 : Int) - d.log2 + 1) := by
    rw [div_lt_iff₀ hpos]
    calc (n : Rat) < 2 ^ (n.log2 + 1 : Int) := hn₂
      _ = 2 ^ ((n.log2 : Int) - d.log2 + 1) * 2 ^ (d.log2 : Int) := by
          rw [← zpow_add₀ two_ne_zero]
          congr 1
          omega
      _ ≤ 2 ^ ((n.log2 : Int) - d.log2 + 1) * d := mul_le_mul_of_nonneg_left hd₁ (hpow _).le
  have hreached := zpow_le_div_iff (n := n) hd ((n.log2 : Int) - d.log2)
  unfold floorLog
  dsimp only
  by_cases hk : (2 : Rat) ^ ((n.log2 : Int) - d.log2) ≤ n / d
  · rw [if_pos (hreached.mpr hk)]
    exact ⟨hk, habove⟩
  · rw [if_neg fun h ↦ hk (hreached.mp h), Int.sub_add_cancel]
    exact ⟨hbelow, lt_of_not_ge hk⟩

theorem floorLog_le {n d : Nat} (hn : 0 < n) (hd : 0 < d) {k : Int}
    (h : (n : Rat) / d < 2 ^ (k + 1)) : floorLog n d ≤ k := by
  have hlt := (floorLog_bounds hn hd).1.trans_lt h
  have hexp := (zpow_lt_zpow_iff_right₀ one_lt_two).mp hlt
  omega

theorem le_floorLog {n d : Nat} (hn : 0 < n) (hd : 0 < d) {k : Int}
    (h : (2 : Rat) ^ k ≤ n / d) : k ≤ floorLog n d := by
  have hlt := h.trans_lt (floorLog_bounds hn hd).2
  have hexp := (zpow_lt_zpow_iff_right₀ one_lt_two).mp hlt
  omega

/-! ### Exact quotients -/

theorem divideToEven_mul (s : Nat) {d : Nat} (hd : 0 < d) : divideToEven (s * d) d = s := by
  unfold divideToEven
  dsimp only
  rw [Nat.mul_mod_left, Nat.mul_div_cancel _ hd]
  exact if_pos hd

/-- A significand over its exponent is found again in any fraction of that value. -/
theorem divideToEven_scaled {n d s : Nat} {e : Int} (hd : 0 < d)
    (h : (n : Rat) / d = s * 2 ^ e) :
    (if 0 ≤ e then divideToEven n (d * Nat.pow 2 e.toNat)
      else divideToEven (n * Nat.pow 2 (-e).toNat) d) = s := by
  have hne : (d : Rat) ≠ 0 := Nat.cast_ne_zero.mpr hd.ne'
  rw [div_eq_iff hne] at h
  split_ifs with he
  · obtain ⟨j, rfl⟩ := Int.eq_ofNat_of_zero_le he
    rw [zpow_natCast] at h
    have hn : n = s * (d * 2 ^ j) := by
      have hcast : (n : Rat) = (s * (d * 2 ^ j) : Nat) := by
        push_cast
        rw [h]
        ring
      exact_mod_cast hcast
    rw [Int.toNat_natCast, Nat.pow_eq, hn]
    exact divideToEven_mul s (Nat.mul_pos hd (by positivity))
  · obtain ⟨j, hj⟩ := Int.eq_ofNat_of_zero_le (Int.neg_nonneg_of_nonpos (Int.le_of_not_le he))
    obtain rfl : e = -(j : Int) := by omega
    have hpow : (2 : Rat) ^ j ≠ 0 := by positivity
    rw [zpow_neg, zpow_natCast] at h
    have hn : n * 2 ^ j = s * d := by
      have hcast : ((n * 2 ^ j : Nat) : Rat) = (s * d : Nat) := by
        push_cast
        rw [h]
        field_simp
      exact_mod_cast hcast
    rw [Int.neg_neg, Int.toNat_natCast, Nat.pow_eq, hn]
    exact divideToEven_mul s hd

/-! ### Numbers and their values -/

namespace Binary

variable {f : Format}

/-- How a pattern is made up of significand and exponent, whether the number is subnormal or not. -/
theorem parts_spec (x : Binary f) :
    f.least ≤ x.parts.2 ∧ x.parts.1 < 2 * 2 ^ f.fractionBits ∧
      (f.least < x.parts.2 → 2 ^ f.fractionBits ≤ x.parts.1) ∧
      x.pattern = (x.parts.2 - f.least).toNat * 2 ^ f.fractionBits + x.parts.1 := by
  have hpos : 0 < 2 ^ f.fractionBits := by positivity
  have hfraction := Nat.mod_lt x.pattern hpos
  have hpattern := Nat.div_add_mod x.pattern (2 ^ f.fractionBits)
  unfold parts
  simp only [Nat.pow_eq]
  split_ifs with hsub
  · rw [hsub, Nat.mul_zero, Nat.zero_add] at hpattern
    refine ⟨le_rfl, by omega, fun h ↦ absurd h (lt_irrefl _), ?_⟩
    rw [Int.sub_self, Int.toNat_zero, Nat.zero_mul, Nat.zero_add]
    exact hpattern.symm
  · generalize x.pattern / 2 ^ f.fractionBits = exponent at *
    obtain ⟨k, rfl⟩ := Nat.exists_eq_succ_of_ne_zero hsub
    refine ⟨by omega, by omega, fun _ ↦ Nat.le_add_right _ _, ?_⟩
    have hscale : (f.least + (k.succ : Nat) - 1 - f.least).toNat = k := by omega
    have hwhole : 2 ^ f.fractionBits * k.succ = k * 2 ^ f.fractionBits + 2 ^ f.fractionBits := by
      rw [Nat.mul_comm, Nat.succ_mul]
    dsimp only
    rw [hscale]
    omega

/-- Patterns are ordered as the magnitudes are. -/
theorem magnitude_mono {x y : Binary f} (h : x.pattern ≤ y.pattern) :
    x.magnitude ≤ y.magnitude := by
  obtain ⟨hleast, hlt, hnormal, hpattern⟩ := x.parts_spec
  obtain ⟨hleast', hlt', hnormal', hpattern'⟩ := y.parts_spec
  have hpow : ∀ k : Int, (0 : Rat) < 2 ^ k := fun k ↦ zpow_pos two_pos k
  unfold magnitude
  rcases lt_trichotomy x.parts.2 y.parts.2 with hbelow | hsame | habove
  · have hwhole := hnormal' (hleast.trans_lt hbelow)
    calc (x.parts.1 : Rat) * 2 ^ x.parts.2
        ≤ (2 * 2 ^ f.fractionBits : Nat) * 2 ^ x.parts.2 :=
          mul_le_mul_of_nonneg_right (by exact_mod_cast hlt.le) (hpow _).le
      _ = (2 ^ f.fractionBits : Nat) * 2 ^ (x.parts.2 + 1) := by
          rw [zpow_add_one₀ two_ne_zero]
          push_cast
          ring
      _ ≤ y.parts.1 * 2 ^ y.parts.2 :=
          mul_le_mul (by exact_mod_cast hwhole) (zpow_le_zpow_right₀ one_le_two hbelow)
            (hpow _).le (Nat.cast_nonneg _)
  · rw [hpattern, hpattern', hsame] at h
    rw [hsame]
    exact mul_le_mul_of_nonneg_right (by exact_mod_cast Nat.le_of_add_le_add_left h) (hpow _).le
  · -- the larger exponent would make the larger pattern
    have hwhole := hnormal (hleast'.trans_lt habove)
    have hscale : (y.parts.2 - f.least).toNat + 1 ≤ (x.parts.2 - f.least).toNat := by omega
    have hscaled := Nat.mul_le_mul_right (2 ^ f.fractionBits) hscale
    rw [Nat.add_mul, Nat.one_mul] at hscaled
    omega

/-- A fraction that is no smaller than a number's magnitude has an exponent that is no smaller. -/
theorem parts_le_floorLog {x : Binary f} {n d : Nat} (hn : 0 < n) (hd : 0 < d)
    (h : x.magnitude ≤ n / d) (habove : f.least < x.parts.2) :
    x.parts.2 + f.fractionBits ≤ floorLog n d := by
  obtain ⟨-, -, hnormal, -⟩ := x.parts_spec
  refine le_floorLog hn hd (le_trans ?_ h)
  rw [zpow_add₀ two_ne_zero, zpow_natCast, mul_comm]
  exact mul_le_mul_of_nonneg_right (by exact_mod_cast hnormal habove) (zpow_pos two_pos _).le

/-- A fraction of the value of a number's magnitude is rounded to its very pattern. -/
theorem nearestPattern_of_eq {x : Binary f} (hx : x.isFinite = true) {n d : Nat} (hd : 0 < d)
    (h : (n : Rat) / d = x.magnitude) : nearestPattern f n d = x.pattern := by
  obtain ⟨hleast, hlt, hnormal, hpattern⟩ := x.parts_spec
  have hfinite : x.pattern < f.infinity := of_decide_eq_true hx
  unfold magnitude at h
  unfold nearestPattern
  split_ifs with hn
  · have hzero : x.parts.1 = 0 := by
      rw [hn, Nat.cast_zero, zero_div, eq_comm, mul_eq_zero] at h
      rcases h with h | h
      · exact_mod_cast h
      · exact absurd h (zpow_ne_zero _ two_ne_zero)
    have hscale : ¬ f.least < x.parts.2 := fun hlt ↦ by
      have hwhole := hnormal hlt
      have hpos : 0 < 2 ^ f.fractionBits := by positivity
      omega
    have hsame : x.parts.2 - f.least = 0 := by omega
    rw [hpattern, hzero, hsame]
    simp
  · have hpow : ∀ k : Int, (0 : Rat) < 2 ^ k := fun k ↦ zpow_pos two_pos k
    have hupper : floorLog n d ≤ x.parts.2 + f.fractionBits := by
      refine floorLog_le (Nat.pos_of_ne_zero hn) hd ?_
      have hsplit : (2 : Rat) ^ (x.parts.2 + f.fractionBits + 1) =
          (2 * 2 ^ f.fractionBits : Nat) * 2 ^ x.parts.2 := by
        rw [zpow_add₀ two_ne_zero, zpow_add₀ two_ne_zero, zpow_natCast, zpow_one]
        push_cast
        ring
      rw [h, hsplit]
      exact mul_lt_mul_of_pos_right (by exact_mod_cast hlt) (hpow _)
    have hlower : f.least < x.parts.2 → x.parts.2 + f.fractionBits ≤ floorLog n d :=
      parts_le_floorLog (Nat.pos_of_ne_zero hn) hd h.ge
    have hexponent : max f.least (floorLog n d - f.fractionBits) = x.parts.2 := by
      rcases hleast.lt_or_eq with habove | hsame
      · have hfound := hlower habove
        omega
      · omega
    dsimp only
    rw [hexponent, divideToEven_scaled hd h, Nat.pow_eq, ← hpattern]
    exact min_eq_right hfinite.le

theorem value_of_nonneg {x : Binary f} (hx : x.negative = false) : x.value = x.magnitude := by
  unfold value
  rw [hx]
  rfl

theorem natAbs_div_den {q : Rat} (h : 0 ≤ q) : (q.num.natAbs : Rat) / q.den = q := by
  have habs : ((q.num.natAbs : Nat) : Rat) = q.num := by
    rw [← Int.cast_natCast, Int.natAbs_of_nonneg (Rat.num_nonneg.mpr h)]
  rw [habs, Rat.num_div_den]

/-- Rounding the value of a finite number that is not negative gives it back. -/
theorem ofRat_value {x : Binary f} (hfinite : x.isFinite = true) (hx : x.negative = false) :
    ofRat x.value = x := by
  have hnonneg : 0 ≤ x.value := value_nonneg hx
  have hnum : (x.value.num.natAbs : Rat) / x.value.den = x.magnitude := by
    rw [natAbs_div_den hnonneg, value_of_nonneg hx]
  have hpattern := nearestPattern_of_eq hfinite x.value.den_pos hnum
  unfold ofRat
  rw [hpattern, decide_eq_false hnonneg.not_gt, ← hx]

end Binary

end NodeFleet.Number
