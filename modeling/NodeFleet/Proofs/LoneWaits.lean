import Mathlib.Algebra.Order.Archimedean.Basic
import NodeFleet.Proofs.TokenLines
/-!
Waiting alone at token buckets on exact rationals; the buckets of a running fleet are on doubles.
Whoever asks a bucket that nobody else asks meanwhile gets a token at the first millisecond at which
there is a whole one. No wait lasts beyond that moment: what is missing arrives by then, and neither
the rounding to nanoseconds nor the bound on a single wait makes a wait longer than whole
milliseconds that are enough. Every wait takes time, so that there are not more rounds than
milliseconds.
-/

set_option autoImplicit false
set_option relaxedAutoImplicit false

namespace NodeFleet

namespace Number

theorem divideToEven_le {n d m : Nat} (hd : 0 < d) (h : n ≤ m * d) : divideToEven n d ≤ m := by
  have hrest : n % d + d * (n / d) = n := Nat.mod_add_div n d
  have hquotient : n / d ≤ m := Nat.div_le_of_le_mul (h.trans_eq (Nat.mul_comm m d))
  rcases hquotient.eq_or_lt with heq | hlt
  · -- the quotient is `m` already, so that nothing is left over
    have hnothing : n % d = 0 := by
      rw [heq, Nat.mul_comm d m] at hrest
      omega
    unfold divideToEven
    rw [hnothing]
    dsimp only
    rw [if_pos (by omega)]
    exact hquotient
  · unfold divideToEven
    dsimp only
    split_ifs
    · exact hquotient
    · exact hlt
    · omega

namespace Binary

variable {f : Format} {x : Binary f}

theorem magnitude_pos (h : x.pattern ≠ 0) : 0 < x.magnitude := by
  have hpower : 0 < Nat.pow 2 f.fractionBits := Nat.pow_pos (by norm_num)
  have hsignificand : 0 < x.parts.1 := by
    unfold parts
    dsimp only
    split_ifs with hexponent
    · have hsmall : x.pattern < Nat.pow 2 f.fractionBits :=
        (Nat.div_eq_zero_iff_lt hpower).mp hexponent
      show 0 < x.pattern % Nat.pow 2 f.fractionBits
      rw [Nat.mod_eq_of_lt hsmall]
      exact Nat.pos_of_ne_zero h
    · exact Nat.add_pos_left hpower _
  exact mul_pos (Nat.cast_pos.mpr hsignificand) (zpow_pos (by norm_num) _)

theorem value_pos (h : zero.lt x = true) : 0 < x.value := by
  obtain ⟨hnegative, hpattern⟩ := positive_of_lt h
  unfold value
  rw [hnegative]
  exact magnitude_pos hpattern

end Binary

end Number

namespace Quota

open NodeFleet.Number

theorem durationOfRat?_of_lt {q : Rat} (hq : 0 ≤ q) (h : q < (Nat.pow 2 64 : Nat)) {millis : Nat}
    (hle : q ≤ millis / 1000) :
    ∃ wait, durationOfRat? q = some wait ∧ wait.nanos ≤ millis * 1000000 := by
  refine ⟨_, if_pos ⟨hq, h⟩, divideToEven_le q.den_pos ?_⟩
  have hnum : ((q.num.natAbs : Nat) : Rat) = q * q.den := by
    rw [Rat.mul_den_eq_num, Nat.cast_natAbs, abs_of_nonneg (Rat.num_nonneg.mpr hq)]
  have hscaled : q * q.den * 1000000000 ≤ millis / 1000 * q.den * 1000000000 := by
    gcongr
  have hcast : ((q.num.natAbs * 1000000000 : Nat) : Rat) ≤ (millis * 1000000 * q.den : Nat) := by
    push_cast
    rw [hnum]
    linarith
  exact_mod_cast hcast

namespace Bucket

variable {b : Bucket Rat} {now t : Nat}

/-- Milliseconds that are enough for what is missing are not shorter than the wait for it. -/
theorem shortfall_le (htokens : b.tokens ≤ 1) (hrate : 0 < b.rate) {millis : Nat}
    (h : 1 ≤ b.tokens + millis / 1000 * b.rate) : b.shortfall.nanos ≤ millis * 1000000 := by
  have hmissing : 0 ≤ (1 - b.tokens) / b.rate := div_nonneg (sub_nonneg.mpr htokens) hrate.le
  have hle : (1 - b.tokens) / b.rate ≤ millis / 1000 := by
    rw [div_le_iff₀ hrate]
    linarith
  have hdefinition : b.shortfall =
      let wait := (durationOfRat? ((1 - b.tokens) / b.rate)).getD maxWait
      if wait.nanos ≤ maxWait.nanos then wait else maxWait := by
    show (let wait := (durationOfRat? ((((1 : Nat) : Rat) - b.tokens) / b.rate)).getD maxWait
      if wait.nanos ≤ maxWait.nanos then wait else maxWait) = _
    rw [Nat.cast_one]
  rw [hdefinition]
  dsimp only
  by_cases hlong : (1 - b.tokens) / b.rate < (Nat.pow 2 64 : Nat)
  · obtain ⟨wait, hwait, hnanos⟩ := durationOfRat?_of_lt hmissing hlong hle
    rw [hwait, Option.getD_some]
    split_ifs with hcap
    · exact hnanos
    · exact (Nat.le_of_not_le hcap).trans hnanos
  · -- a wait beyond all durations is cut to the longest single one
    have hminute : maxWait.nanos ≤ millis * 1000000 := by
      have hages : ((Nat.pow 2 64 : Nat) : Rat) ≤ millis / 1000 := (not_lt.mp hlong).trans hle
      have hmillis : ((Nat.pow 2 64 * 1000 : Nat) : Rat) ≤ (millis : Nat) := by
        push_cast at hages ⊢
        linarith
      have hwhole : Nat.pow 2 64 * 1000 ≤ millis := by exact_mod_cast hmillis
      have hspan : maxWait.nanos = 60000 * 1000000 := rfl
      have hpow : Nat.pow 2 64 * 1000 = 18446744073709551616000 := rfl
      omega
    rw [show durationOfRat? ((1 - b.tokens) / b.rate) = none from if_neg fun hin ↦ hlong hin.2,
      Option.getD_none, if_pos le_rfl]
    exact hminute

theorem Sound.level_refill (h : b.Sound now) (hle : now ≤ t) :
    (b.refill now).level t = b.level t := by
  obtain ⟨millis, rfl⟩ := Nat.exists_eq_add_of_le hle
  have hfull : (b.refill now).level now = b.level now :=
    level_of_refilled rfl h.refill.le_capacity
  rw [h.refill.level_elapse, h.level_elapse, hfull]
  rfl

/-- A waiter comes back no later than there is a whole token. -/
theorem Sound.wakeAfter_le (h : b.Sound now) (hrate : 0 < b.rate) (hlow : ¬ 1 ≤ b.level now)
    (hle : now ≤ t) (hwhole : 1 ≤ b.level t) : wakeAfter now (b.refill now).shortfall ≤ t := by
  obtain ⟨millis, rfl⟩ := Nat.exists_eq_add_of_le hle
  have henough : 1 ≤ b.level now + millis / 1000 * b.rate := by
    rw [h.level_elapse] at hwhole
    exact hwhole.trans (min_le_left _ _)
  have hmillis : 1 ≤ millis := by
    refine Nat.one_le_iff_ne_zero.mpr fun hzero ↦ hlow ?_
    rw [hzero, Nat.add_zero] at hwhole
    exact hwhole
  have hshort : (b.refill now).shortfall.nanos ≤ millis * 1000000 :=
    shortfall_le (b := b.refill now) (not_le.mp hlow).le hrate henough
  exact Nat.add_le_add_left (max_le ((Duration.ceilMillis_le_iff _ _).mpr hshort) hmillis) now

/-- In time there is a whole token. -/
theorem Sound.exists_whole (h : b.Sound now) (hrate : 0 < b.rate) (hcapacity : 1 ≤ b.capacity) :
    ∃ t, now ≤ t ∧ 1 ≤ b.level t := by
  obtain ⟨millis, hmillis⟩ := exists_nat_ge (1000 / b.rate)
  have hearned : 1 ≤ millis / 1000 * b.rate := by
    rw [div_le_iff₀ hrate] at hmillis
    linarith
  refine ⟨now + millis, Nat.le_add_right _ _, ?_⟩
  rw [h.level_elapse]
  have hbalance : 0 ≤ b.level now := h.level_nonneg now
  exact le_min (by linarith) hcapacity

end Bucket

namespace Settings

def rate (s : Settings) : Direction → Single
  | .read => s.qps
  | .write => s.qpsWrite

def burst (s : Settings) : Direction → UInt32
  | .read => s.bucket
  | .write => s.bucketWrite

end Settings

namespace Limiter

variable {c : Category} {s : Settings} {d : Direction} {l : Limiter Rat} {b : Bucket Rat}
  {now t fuel : Nat}

/-! ### Limiters in use -/

/-- What becomes of a limiter as time passes and tokens are asked for. -/
inductive Reached (c : Category) (s : Settings) : Nat → Limiter Rat → Prop
  | new (now : Nat) : Reached c s now (.new c s now)
  | elapse {now : Nat} {l : Limiter Rat} (h : Reached c s now l) (millis : Nat) :
      Reached c s (now + millis) l
  | take {now : Nat} {l : Limiter Rat} (h : Reached c s now l) (d : Direction) :
      Reached c s now (l.take now d).1

/-- Settings that limit a direction make it a full bucket. -/
theorem bucket_new {α : Type} [Balance α] {c : Category} {s : Settings} {d : Direction} {now : Nat}
    (henabled : s.enabled = true) (hrate : Binary.zero.lt (s.rate d) = true) :
    (new c s now : Limiter α).bucket d = some (.new (s.rate d) (s.burst d) now) := by
  have hbucket : (new c s now : Limiter α).bucket d =
      bucket? s.enabled (s.rate d) (s.burst d) now := by
    cases d with
    | read => rfl
    | write => rfl
  unfold bucket? at hbucket
  rwa [henabled, hrate] at hbucket

theorem take_of_bucket (h : l.bucket d = some b) (now : Nat) :
    l.take now d = (l.withBucket d (b.take now).1, (b.take now).2) := by
  unfold take
  rw [h]

theorem bucket_withBucket (l : Limiter Rat) (d : Direction) (b : Bucket Rat) :
    (l.withBucket d b).bucket d = some b := by
  cases d with
  | read => rfl
  | write => rfl

/-- A token of one direction is taken from its bucket alone. -/
theorem bucket_take_of_ne {α : Type} [Balance α] {l : Limiter α} {d d' : Direction} (h : d' ≠ d)
    (now : Nat) : (l.take now d').1.bucket d = l.bucket d := by
  unfold take
  cases l.bucket d' with
  | none => rfl
  | some b =>
    cases d with
    | read =>
      cases d' with
      | read => exact absurd rfl h
      | write => rfl
    | write =>
      cases d' with
      | read => rfl
      | write => exact absurd rfl h

theorem withBucket_withBucket (l : Limiter Rat) (d : Direction) (b b' : Bucket Rat) :
    (l.withBucket d b).withBucket d b' = l.withBucket d b' := by
  cases d with
  | read => rfl
  | write => rfl

/-- Whether a limiter gives the tokens of a direction at its rate, up to its burst. -/
def Throttles (l : Limiter Rat) (s : Settings) (d : Direction) (now : Nat) : Prop :=
  ∃ b, l.bucket d = some b ∧ b.Sound now ∧ b.rate = (s.rate d).value ∧
    b.capacity = (max (s.burst d).toNat 1 : Nat)

theorem Throttles.take (h : l.Throttles s d now) (d' : Direction) :
    (l.take now d').1.Throttles s d now := by
  obtain ⟨b, hbucket, hsound, hrate, hcapacity⟩ := h
  by_cases hd : d' = d
  · rw [hd, take_of_bucket hbucket]
    obtain ⟨hsound', hcapacity', hrate', -⟩ := hsound.take
    exact ⟨_, bucket_withBucket l d _, hsound', hrate'.trans hrate, hcapacity'.trans hcapacity⟩
  · exact ⟨b, (bucket_take_of_ne hd now).trans hbucket, hsound, hrate, hcapacity⟩

theorem Reached.throttles (h : Reached c s now l) (henabled : s.enabled = true)
    (hrate : Binary.zero.lt (s.rate d) = true) : l.Throttles s d now := by
  induction h with
  | new now =>
    exact ⟨_, bucket_new henabled hrate, Bucket.sound_new hrate _ now, rfl, rfl⟩
  | elapse h millis ih =>
    obtain ⟨b, hbucket, hsound, hsettings⟩ := ih
    exact ⟨b, hbucket, hsound.mono (Nat.le_add_right _ millis), hsettings⟩
  | take h d' ih => exact ih.take d'

/-! ### Waiting alone -/

/-- Waiting ends at the first moment of a whole token, which is taken then. -/
theorem acquire_of_first (hbucket : l.bucket d = some b) (hsound : b.Sound now) (hrate : 0 < b.rate)
    (hle : now ≤ t) (hwhole : 1 ≤ b.level t) (hfirst : ∀ t', now ≤ t' → 1 ≤ b.level t' → t ≤ t')
    (hfuel : t - now < fuel) :
    l.acquire fuel now d =
      some (t, l.withBucket d { b with tokens := b.level t - 1, refilledAt := t }) := by
  induction fuel generalizing l b now with
  | zero => exact absurd hfuel (Nat.not_lt_zero _)
  | succ fuel ih =>
    have htake := take_of_bucket hbucket now
    rw [b.take_eq] at htake
    by_cases hnow : 1 ≤ b.level now
    · obtain rfl : t = now := (hfirst now le_rfl hnow).antisymm hle
      rw [if_pos hnow] at htake
      rw [acquire_of_taken (by rw [htake]), htake]
      rfl
    · rw [if_neg hnow] at htake
      have hlater : now < wakeAfter now (b.refill now).shortfall := lt_wakeAfter now _
      have hwake : wakeAfter now (b.refill now).shortfall ≤ t :=
        hsound.wakeAfter_le hrate hnow hle hwhole
      have hsame : ∀ t', wakeAfter now (b.refill now).shortfall ≤ t' →
          (b.refill now).level t' = b.level t' := fun t' ht' ↦
        hsound.level_refill (hlater.le.trans ht')
      rw [acquire_of_refused (by rw [htake]), htake]
      have hrest :=
        ih (bucket_withBucket l d (b.refill now)) (hsound.refill.mono hlater.le) hrate hwake
        ((hsame t hwake).symm ▸ hwhole)
        (fun t' ht' hwhole' ↦ hfirst t' (hlater.le.trans ht') (hsame t' ht' ▸ hwhole')) (by omega)
      rw [hrest, withBucket_withBucket, hsame t hwake]
      rfl

/-- How a waiter is served that is alone with the bucket `b` of its direction. -/
structure ServedAlone (l : Limiter Rat) (s : Settings) (d : Direction) (now : Nat) (b : Bucket Rat)
    (served : Nat) : Prop where
  bucket : l.bucket d = some b
  /-- The balance at a later moment, if nobody takes a token. -/
  balance : ∀ t, now ≤ t → b.level t =
    min (b.level now + (t - now : Nat) / 1000 * (s.rate d).value) (max (s.burst d).toNat 1 : Nat)
  later : now ≤ served
  whole : 1 ≤ b.level served
  first : ∀ t, now ≤ t → 1 ≤ b.level t → served ≤ t
  /-- More rounds than there are milliseconds are never needed. -/
  acquired : ∀ fuel, served - now < fuel → l.acquire fuel now d =
    some (served, l.withBucket d { b with tokens := b.level served - 1, refilledAt := served })

/-- Whatever has been asked of a limiter before, a waiter that is alone from now on gets a token,
and gets it at the first millisecond at which there is a whole one. -/
theorem served_alone (h : Reached c s now l) (henabled : s.enabled = true)
    (hrate : Binary.zero.lt (s.rate d) = true) : ∃ b served, ServedAlone l s d now b served := by
  obtain ⟨b, hbucket, hsound, hvalue, hcapacity⟩ := h.throttles henabled hrate
  have hpositive : 0 < b.rate := by
    rw [hvalue]
    exact Binary.value_pos hrate
  have hholds : 1 ≤ b.capacity := by
    rw [hcapacity]
    exact_mod_cast Nat.le_max_right _ 1
  have hexists := hsound.exists_whole hpositive hholds
  obtain ⟨hle, hwhole⟩ := Nat.find_spec hexists
  have hfirst : ∀ t, now ≤ t → 1 ≤ b.level t → Nat.find hexists ≤ t :=
    fun t ht hone ↦ Nat.find_min' hexists ⟨ht, hone⟩
  refine ⟨b, Nat.find hexists, hbucket, fun t ht ↦ ?_, hle, hwhole, hfirst,
    fun fuel hfuel ↦ acquire_of_first hbucket hsound hpositive hle hwhole hfirst hfuel⟩
  obtain ⟨millis, rfl⟩ := Nat.exists_eq_add_of_le ht
  rw [hsound.level_elapse, hvalue, hcapacity, Nat.add_sub_cancel_left]

/-- A token in 128 seconds for reads, and one in less than half a nanosecond for writes. -/
def unevenSettings : Settings :=
  ⟨true, .ofRat (1 / 128), 1, .ofNat 2147483648, 1⟩

/-- The limiter of which both tokens have been taken. -/
def drained : Limiter Rat :=
  (((new .disk unevenSettings 0).take 0 .read).1.take 0 .write).1

theorem served_alone_drained :
    (∃ b served, ServedAlone drained unevenSettings .read 500 b served) ∧
      (∃ b served, ServedAlone drained unevenSettings .write 500 b served) ∧
      (drained.acquire 4 500 .read).map Prod.fst = some 128000 ∧
      (drained.acquire 2 500 .write).map Prod.fst = some 500 ∧
      (drained.acquire 2 0 .write).map Prod.fst = some 1 ∧
      ((drained.take 0 .write).2.map Duration.nanos) = some 0 := by
  have hreached : Reached .disk unevenSettings 500 drained :=
    .elapse (.take (.take (.new 0) .read) .write) 500
  exact ⟨served_alone hreached rfl (by decide +kernel),
    served_alone hreached rfl (by decide +kernel), by decide +kernel, by decide +kernel,
    by decide +kernel, by decide +kernel⟩

end Limiter

end Quota

end NodeFleet
