import NodeFleet.Proofs.ExactNumbers
import NodeFleet.Proofs.LoneWaits
/-!
Balances in doubles. Whatever a bucket has earned, be it infinite or no number at all, its balance
is a number between zero and its capacity: the smaller of a sum and the capacity is taken, and a sum
of what is not negative is either no number or no smaller than before. A whole token is taken
without rounding, for balances are small. So neither rounding nor an infinite rate makes a bucket
overdrawn or overfull.
-/

set_option autoImplicit false
set_option relaxedAutoImplicit false

namespace NodeFleet

open NodeFleet.Number

namespace Number.Binary

/-! ### Doubles -/

theorem ofNat_exact {n : Nat} (h : n < 2 ^ 53) :
    (ofNat n : Double).isFinite = true ∧ (ofNat n : Double).value = n := by
  have hrange : ((2 ^ 53 : Nat) : Rat) ≤ (infinity : Double).magnitude := by decide +kernel
  exact ofRat_of_holds (holds_natCast (by decide) h
    (lt_of_lt_of_le (Nat.cast_lt.mpr h) hrange))

/-- Every single is a double, the subnormal ones too. -/
theorem convert_exact {x : Single} (hx : x.isFinite = true) (hneg : x.negative = false) :
    (x.convert : Double).isFinite = true ∧ (x.convert : Double).value = x.value := by
  rw [convert_of_finite hx hneg]
  exact ofRat_of_holds (holds_value (by decide) (by decide) (by decide +kernel) hx hneg)

theorem isFinite_convert_of_infinite {x : Single} (hx : x.isInfinite = true) :
    (x.convert : Double).isFinite = false := by
  have hpattern : x.pattern = Format.single.infinity := by simpa [isInfinite] using hx
  have hnumber : x.isNaN = false := by simp [isNaN, hpattern]
  unfold convert
  rw [hnumber, hx]
  exact decide_eq_false (lt_irrefl _)

/-- One is taken from a double without rounding. -/
theorem sub_one_exact {x : Double} (hx : x.isFinite = true) (hneg : x.negative = false)
    (hone : 1 ≤ x.value) (hlt : x.value < (2 ^ 53 : Nat)) :
    (x.sub (ofNat 1)).negative = false ∧ (x.sub (ofNat 1)).isFinite = true ∧
      (x.sub (ofNat 1)).value = x.value - 1 := by
  rw [sub_one_of_finite hx]
  exact ⟨negative_ofRat (sub_nonneg.mpr hone),
    ofRat_of_holds (holds_sub_one (by decide) hx hneg hone hlt)⟩

theorem one_sub_of_finite {x : Double} (hx : x.isFinite = true) :
    (ofNat 1).sub x = ofRat (1 - x.value) := by
  obtain ⟨hone, hvalue⟩ := ofNat_exact (n := 1) (by norm_num)
  have hnull : (ofNat 1 : Double).isZero = false := by decide +kernel
  have hminus : x.neg.value = -x.value := by
    unfold value neg
    cases x.negative with
    | false => rfl
    | true => exact (neg_neg _).symm
  unfold sub
  rw [add_of_finite hone (y := x.neg) hx, hnull, Bool.false_and, if_neg Bool.false_ne_true, hvalue,
    hminus, Nat.cast_one, ← sub_eq_add_neg]

end Number.Binary

namespace Quota.Bucket

variable {b : Bucket Double} {qps : Single} {burst : UInt32} {now : Nat}

/-- The balance is a number between zero and the capacity. -/
structure Balanced (b : Bucket Double) : Prop where
  finite : b.tokens.isFinite = true
  nonneg : 0 ≤ b.tokens.value
  le_capacity : b.tokens.value ≤ b.capacity.value

/-- The seconds that the tokens missing take to arrive, as they are computed. -/
def lacking (b : Bucket Double) : Double :=
  ((Binary.ofNat 1).sub b.tokens).div b.rate

/-- A bucket of a rate and a burst that is not overdrawn and not overfull. -/
structure Within (b : Bucket Double) (qps : Single) (burst : UInt32) : Prop where
  negative : b.tokens.negative = false
  le_capacity : b.tokens.pattern ≤ b.capacity.pattern
  capacity : b.capacity = .ofNat (max burst.toNat 1)
  rate : b.rate = qps.convert

theorem within_new (qps : Single) (burst : UInt32) (now : Nat) :
    (new qps burst now : Bucket Double).Within qps burst :=
  ⟨Binary.negative_ofNat _, le_rfl, rfl, rfl⟩

namespace Within

theorem capacity_exact (h : b.Within qps burst) :
    b.capacity.isFinite = true ∧ b.capacity.value = (max burst.toNat 1 : Nat) := by
  rw [h.capacity]
  have hburst : burst.toNat < 2 ^ 32 := burst.toNat_lt
  exact Binary.ofNat_exact (by omega)

theorem negative_capacity (h : b.Within qps burst) : b.capacity.negative = false := by
  rw [h.capacity]
  exact Binary.negative_ofNat _

theorem finite (h : b.Within qps burst) : b.tokens.isFinite = true :=
  decide_eq_true (h.le_capacity.trans_lt (of_decide_eq_true h.capacity_exact.1))

theorem balanced (h : b.Within qps burst) : b.Balanced :=
  ⟨h.finite, Binary.value_nonneg h.negative,
    (Binary.pattern_le_iff h.finite h.negative h.capacity_exact.1 h.negative_capacity).mp
      h.le_capacity⟩

theorem regular (h : b.Within qps burst) (hqps : Binary.zero.lt qps = true) : b.Regular := by
  refine ⟨h.negative, h.negative_capacity, (Binary.isFinite_iff.mp h.capacity_exact.1).1, ?_⟩
  rw [h.rate]
  exact Binary.negative_convert (Binary.negative_of_lt hqps)

theorem refill_pattern (h : b.Within qps burst) (hqps : Binary.zero.lt qps = true) (now : Nat) :
    b.tokens.pattern ≤ (b.refill now).tokens.pattern ∧
      (b.refill now).tokens.pattern ≤ b.capacity.pattern := by
  have hregular := h.regular hqps
  exact Binary.le_min_add h.finite h.negative
    (Binary.negative_mul (negative_seconds _) hregular.rate) hregular.number h.negative_capacity
    h.le_capacity

theorem refill (h : b.Within qps burst) (hqps : Binary.zero.lt qps = true) (now : Nat) :
    (b.refill now).Within qps burst :=
  ⟨((h.regular hqps).refill now).tokens, (h.refill_pattern hqps now).2, h.capacity, h.rate⟩

theorem value_le_refill (h : b.Within qps burst) (hqps : Binary.zero.lt qps = true) (now : Nat) :
    b.tokens.value ≤ (b.refill now).tokens.value :=
  (Binary.pattern_le_iff h.finite h.negative (h.refill hqps now).finite
    (h.refill hqps now).negative).mp (h.refill_pattern hqps now).1

/-- A bucket that holds a whole token gives it; otherwise it is only brought up to date. -/
theorem take_eq (h : b.Within qps burst) (hqps : Binary.zero.lt qps = true) (now : Nat) :
    b.take now =
      if 1 ≤ (b.refill now).tokens.value then
        ({ b.refill now with tokens := (b.refill now).tokens.sub (.ofNat 1) }, none)
      else (b.refill now, some (b.refill now).shortfall) := by
  have hfull := h.refill hqps now
  obtain ⟨hone, hvalue⟩ := Binary.ofNat_exact (n := 1) (by norm_num)
  have hle := Binary.le_iff hone (Binary.negative_ofNat 1) hfull.finite hfull.negative
  rw [hvalue, Nat.cast_one] at hle
  exact if_congr hle rfl rfl

/-- A whole token is taken, neither more nor less. -/
theorem sub_one (h : b.Within qps burst) (hone : 1 ≤ b.tokens.value) :
    ({ b with tokens := b.tokens.sub (.ofNat 1) } : Bucket Double).Within qps burst ∧
      (b.tokens.sub (.ofNat 1)).value = b.tokens.value - 1 := by
  obtain ⟨hcapacity, hburst⟩ := h.capacity_exact
  have hle := h.balanced.le_capacity
  have hsmall : b.tokens.value < (2 ^ 53 : Nat) := by
    have hlt : max burst.toNat 1 < 2 ^ 53 := by
      have hword : burst.toNat < 2 ^ 32 := burst.toNat_lt
      omega
    rw [hburst] at hle
    exact hle.trans_lt (Nat.cast_lt.mpr hlt)
  obtain ⟨hneg, hfinite, hvalue⟩ := Binary.sub_one_exact h.finite h.negative hone hsmall
  refine ⟨⟨hneg, ?_, h.capacity, h.rate⟩, hvalue⟩
  refine (Binary.pattern_le_iff hfinite hneg hcapacity h.negative_capacity).mpr ?_
  rw [hvalue]
  exact (sub_le_self _ zero_le_one).trans hle

theorem take (h : b.Within qps burst) (hqps : Binary.zero.lt qps = true) (now : Nat) :
    (b.take now).1.Within qps burst := by
  have hfull := h.refill hqps now
  rw [h.take_eq hqps]
  split_ifs with hone
  · exact (hfull.sub_one hone).1
  · exact hfull

/-- At an infinite rate a bucket is full whenever it is asked, also if no time has passed. -/
theorem refill_of_infinite (h : b.Within qps burst) (hqps : Binary.zero.lt qps = true)
    (hinf : qps.isInfinite = true) (now : Nat) : (b.refill now).tokens = b.capacity := by
  have hrate : b.rate.isFinite = false := by
    rw [h.rate]
    exact Binary.isFinite_convert_of_infinite hinf
  rw [(h.regular hqps).refill_of_infinite hrate]

-- what no time earns at such a rate is no number
example : ((Balance.seconds 0 : Double).mul .infinity).isNaN = true := by decide +kernel

/-- What is computed for a wait is a number that is not negative, or positive infinity. -/
theorem lacking (h : b.Within qps burst) (hqps : Binary.zero.lt qps = true)
    (hfinite : qps.isFinite = true) (hlow : b.tokens.value < 1) :
    b.lacking.isNaN = false ∧ b.lacking.negative = false := by
  obtain ⟨hrate, hvalue⟩ := Binary.convert_exact hfinite (Binary.negative_of_lt hqps)
  have hpositive : 0 < (qps.convert : Double).value := hvalue ▸ Binary.value_pos hqps
  unfold Bucket.lacking
  rw [Binary.one_sub_of_finite h.finite, h.rate]
  refine ⟨Binary.isNaN_div (Binary.isNaN_ofRat _) hrate (Binary.isZero_of_pos hpositive),
    Binary.negative_div (Binary.negative_ofRat (sub_nonneg.mpr hlow.le)) ?_⟩
  exact Binary.negative_convert (Binary.negative_of_lt hqps)

theorem isNone_take (h : b.Within qps burst) (hqps : Binary.zero.lt qps = true) (now : Nat) :
    (b.take now).2 = none ↔ 1 ≤ (b.refill now).tokens.value := by
  rw [h.take_eq hqps]
  split_ifs with hone
  · exact iff_of_true rfl hone
  · exact iff_of_false (fun hnone ↦ by cases hnone) hone

/-- Whoever is refused leaves the balance as it is brought up to date. -/
theorem take_of_refused (h : b.Within qps burst) (hqps : Binary.zero.lt qps = true)
    {wait : Duration} (hwait : (b.take now).2 = some wait) :
    (b.refill now).tokens.value < 1 ∧ (b.take now).1 = b.refill now ∧
      (b.refill now).shortfall = wait := by
  rw [h.take_eq hqps] at hwait ⊢
  split_ifs at hwait ⊢ with hone
  exact ⟨not_le.mp hone, rfl, Option.some.inj hwait⟩

/-- At an infinite rate nobody is refused. -/
theorem take_of_infinite (h : b.Within qps burst) (hqps : Binary.zero.lt qps = true)
    (hinf : qps.isInfinite = true) (now : Nat) : (b.take now).2 = none := by
  rw [h.isNone_take hqps, h.refill_of_infinite hqps hinf, h.capacity_exact.2]
  exact_mod_cast Nat.le_max_right _ 1

/-- Only a rate that is a number makes anybody wait. -/
theorem finite_of_refused (h : b.Within qps burst) (hqps : Binary.zero.lt qps = true)
    {wait : Duration} (hwait : (b.take now).2 = some wait) : qps.isFinite = true := by
  refine Binary.isFinite_iff.mpr ⟨Binary.isNaN_of_lt hqps, Bool.eq_false_iff.mpr fun hinf ↦ ?_⟩
  rw [h.take_of_infinite hqps hinf] at hwait
  cases hwait

end Within

theorem shortfall_nanos (b : Bucket Double) : b.shortfall.nanos =
    min ((Balance.duration? b.lacking).getD maxWait).nanos maxWait.nanos := by
  show (if ((Balance.duration? b.lacking).getD maxWait).nanos ≤ maxWait.nanos then
    (Balance.duration? b.lacking).getD maxWait else maxWait).nanos = _
  rw [min_def, apply_ite Duration.nanos]

end Quota.Bucket

namespace Quota.Limiter

variable {s : Settings} {d : Direction} {l : Limiter Double} {b : Bucket Double}

/-- A limiter after it has been asked for tokens, each time at some moment. -/
def asked {α : Type} [Balance α] (l : Limiter α) (asks : List (Nat × Direction)) : Limiter α :=
  asks.foldl (fun l ask ↦ (l.take ask.1 ask.2).1) l

/-- How a limiter rations the tokens of one direction, from the bucket `b`. -/
structure Rations (l : Limiter Double) (s : Settings) (d : Direction) (b : Bucket Double) :
    Prop where
  bucket : l.bucket d = some b
  capacity : b.capacity.isFinite = true ∧ b.capacity.value = (max (s.burst d).toNat 1 : Nat)
  rate : (s.rate d).isFinite = true → b.rate.isFinite = true ∧ b.rate.value = (s.rate d).value
  balanced : b.Balanced
  /-- Nothing is lost when the balance is brought up to date. -/
  refilled : ∀ now, (b.refill now).Balanced ∧ b.tokens.value ≤ (b.refill now).tokens.value
  given_iff : ∀ now, (l.take now d).2 = none ↔ 1 ≤ (b.refill now).tokens.value
  given : ∀ now, (l.take now d).2 = none → ∃ b', (l.take now d).1.bucket d = some b' ∧
    b'.tokens.value = (b.refill now).tokens.value - 1
  refused : ∀ now wait, (l.take now d).2 = some wait →
    (l.take now d).1.bucket d = some (b.refill now)
  /-- What is computed for a wait is never negative and always a number, so that it is cut to the
  longest single wait for being too large only. -/
  waits : ∀ now wait, (l.take now d).2 = some wait →
    (b.refill now).lacking.negative = false ∧ (b.refill now).lacking.isNaN = false ∧
      wait.nanos =
        min ((Balance.duration? (b.refill now).lacking).getD maxWait).nanos maxWait.nanos ∧
      wait.nanos ≤ (Duration.ofSeconds 60).nanos
  unlimited : (s.rate d).isInfinite = true → ∀ now, (l.take now d).2 = none

/-- A limiter rations as its bucket does. -/
theorem rations_of_within (hbucket : l.bucket d = some b) (h : b.Within (s.rate d) (s.burst d))
    (hrate : Binary.zero.lt (s.rate d) = true) : l.Rations s d b := by
  have hnext : ∀ now, (l.take now d).1.bucket d = some (b.take now).1 := fun now ↦ by
    rw [(l.take_eq now d).1, hbucket, Option.map_some]
  have hresult : ∀ now, (l.take now d).2 = (b.take now).2 := fun now ↦ by
    rw [(l.take_eq now d).2, hbucket, Option.bind_some]
  have hfull := h.refill hrate
  exact {
    bucket := hbucket
    capacity := h.capacity_exact
    rate := fun hfinite ↦ by
      rw [h.rate]
      exact Binary.convert_exact hfinite (Binary.negative_of_lt hrate)
    balanced := h.balanced
    refilled := fun now ↦ ⟨(hfull now).balanced, h.value_le_refill hrate now⟩
    given_iff := fun now ↦ by rw [hresult, h.isNone_take hrate]
    given := fun now hgiven ↦ by
      rw [hresult, h.isNone_take hrate] at hgiven
      refine ⟨_, hnext now, ?_⟩
      rw [h.take_eq hrate, if_pos hgiven]
      exact ((hfull now).sub_one hgiven).2
    refused := fun now wait hrefused ↦ by
      rw [hresult] at hrefused
      rw [hnext, (h.take_of_refused hrate hrefused).2.1]
    waits := fun now wait hrefused ↦ by
      rw [hresult] at hrefused
      have hfinite := h.finite_of_refused hrate hrefused
      obtain ⟨hlow, -, rfl⟩ := h.take_of_refused hrate hrefused
      obtain ⟨hnumber, hnegative⟩ := (hfull now).lacking hrate hfinite hlow
      have hnanos := (b.refill now).shortfall_nanos
      exact ⟨hnegative, hnumber, hnanos, hnanos.trans_le (min_le_right _ _)⟩
    unlimited := fun hinf now ↦ (hresult now).trans (h.take_of_infinite hrate hinf now) }

theorem within_asked (hrate : Binary.zero.lt (s.rate d) = true) (hbucket : l.bucket d = some b)
    (h : b.Within (s.rate d) (s.burst d)) (asks : List (Nat × Direction)) :
    ∃ b', (l.asked asks).bucket d = some b' ∧ b'.Within (s.rate d) (s.burst d) := by
  induction asks generalizing l b with
  | nil => exact ⟨b, hbucket, h⟩
  | cons ask rest ih =>
    obtain ⟨now, d'⟩ := ask
    by_cases hd : d' = d
    · refine ih (l := (l.take now d').1) ?_ (h.take hrate now)
      rw [hd, (l.take_eq now d).1, hbucket, Option.map_some]
    · exact ih (l := (l.take now d').1) ((bucket_take_of_ne hd now).trans hbucket) h

/-- Whatever has been asked of a limiter and whenever, it rations the tokens of each direction
that it limits. -/
theorem rations_after (c : Category) (start : Nat) (asks : List (Nat × Direction))
    (henabled : s.enabled = true) (hrate : Binary.zero.lt (s.rate d) = true) :
    ∃ b, ((new c s start : Limiter Double).asked asks).Rations s d b := by
  obtain ⟨b, hbucket, h⟩ := within_asked hrate (bucket_new henabled hrate)
    (Bucket.within_new (s.rate d) (s.burst d) start) asks
  exact ⟨b, rations_of_within hbucket h hrate⟩

/-- Reads at the least rate there is, and writes at an infinite one. -/
def extremeSettings : Settings :=
  ⟨true, ⟨false, 1⟩, 1, .infinity, 0⟩

/-- The limiter after both directions have been asked twice, at one moment and later. -/
def insistedOn : Limiter Double :=
  (new .disk extremeSettings 0).asked
    [(5, .write), (5, .write), (5, .read), (1000, .read), (1000, .write)]

theorem rations_after_insisting :
    (∃ b, insistedOn.Rations extremeSettings .read b) ∧
      (∃ b, insistedOn.Rations extremeSettings .write b) ∧
      ((insistedOn.take 2000 .read).2.map Duration.nanos) = some 60000000000 ∧
      (insistedOn.take 1000 .write).2 = none :=
  ⟨rations_after .disk 0 _ rfl (by decide +kernel), rations_after .disk 0 _ rfl (by decide +kernel),
    by decide +kernel, by decide +kernel⟩

end Quota.Limiter

end NodeFleet
