import NodeFleet.Proofs.History
import NodeFleet.Proofs.TokenBuckets
/-!
Admission to the cloud. Every call that gets through has taken one token of its category and every
token that is taken lets one call through, in whatever order calls begin, wait, are carried on and
are given up. So the calls of a window are paid for by what a full bucket holds and by what the rate
adds while the window lasts.

An account behind a line, whose answers and delays are set at will, stands for the client of any
cloud; its counts are those of the calls that reach it.
-/

set_option autoImplicit false
set_option relaxedAutoImplicit false

namespace NodeFleet

open NodeFleet.Quota

/-- The category whose tokens a question costs. -/
def Query.category : Query → Category
  | members _ => .virtualMachine
  | _ => .virtualMachineScaleSet

def CallCounts.of (n : CallCounts) : Category → Nat
  | .virtualMachineScaleSet => n.scaleSets + n.scaleSet
  | .virtualMachine => n.members
  | _ => 0

theorem CallCounts.of_count (n : CallCounts) (q : Query) (c : Category) :
    (n.count q).of c = n.of c + if q.category = c then 1 else 0 := by
  cases q with
  | scaleSets =>
    cases c with
    | virtualMachineScaleSet => exact Nat.add_right_comm _ _ _
    | _ => rfl
  | scaleSet name => cases c <;> rfl
  | members name => cases c <;> rfl

/-! ### Buckets of categories -/

section

variable {α : Type} [Balance α]

theorem Quota.Limiter.take_eq (l : Limiter α) (now : Nat) (d : Direction) :
    (l.take now d).1.bucket d = (l.bucket d).map (fun b ↦ (b.take now).1) ∧
      (l.take now d).2 = (l.bucket d).bind fun b ↦ (b.take now).2 := by
  unfold take
  cases hbucket : l.bucket d with
  | none => exact ⟨hbucket, rfl⟩
  | some b => cases d <;> exact ⟨rfl, rfl⟩

namespace Fleet

/-- The bucket from which the questions of a category draw. -/
def Quotas.bucket? (quotas : Quotas α) : Category → Option (Bucket α)
  | .virtualMachineScaleSet => quotas.scaleSets.bucket .read
  | .virtualMachine => quotas.virtualMachines.bucket .read
  | _ => none

theorem Quotas.take_eq (quotas : Quotas α) (now : Nat) (q : Query) :
    (quotas.take now q).1.bucket? q.category =
        (quotas.bucket? q.category).map (fun b ↦ (b.take now).1) ∧
      (∀ c, q.category ≠ c → (quotas.take now q).1.bucket? c = quotas.bucket? c) ∧
      (quotas.take now q).2 = (quotas.bucket? q.category).bind fun b ↦ (b.take now).2 := by
  cases q with
  | members name =>
    obtain ⟨hbucket, hwait⟩ := quotas.virtualMachines.take_eq now .read
    refine ⟨hbucket, fun c hc ↦ ?_, hwait⟩
    cases c with
    | virtualMachine => exact absurd rfl hc
    | _ => rfl
  | _ =>
    obtain ⟨hbucket, hwait⟩ := quotas.scaleSets.take_eq now .read
    refine ⟨hbucket, fun c hc ↦ ?_, hwait⟩
    cases c with
    | virtualMachineScaleSet => exact absurd rfl hc
    | _ => rfl

namespace World

def bucket? (w : World α) (c : Category) : Option (Bucket α) :=
  w.quotas.bind fun quotas ↦ quotas.bucket? c

/-- The calls of a category that have reached the account. -/
def calls (w : World α) (c : Category) : Nat :=
  match w.cloud with
  | .account a => a.calls.of c
  | .directory _ => 0

theorem draw_eq (w : World α) (q : Query) :
    (w.draw q).1 = { w with quotas := (w.draw q).1.quotas } ∧
      (w.draw q).1.bucket? q.category =
        (w.bucket? q.category).map (fun b ↦ (b.take w.now).1) ∧
      (∀ c, q.category ≠ c → (w.draw q).1.bucket? c = w.bucket? c) ∧
      ((w.draw q).2 = none ↔ ((w.bucket? q.category).bind fun b ↦ (b.take w.now).2) = none) := by
  unfold draw bucket?
  cases hquotas : w.quotas with
  | none =>
    dsimp only
    rw [hquotas]
    exact ⟨by rw [← hquotas], rfl, fun _ _ ↦ rfl, iff_of_true rfl rfl⟩
  | some quotas =>
    obtain ⟨hbucket, hothers, hwait⟩ := quotas.take_eq w.now q
    refine ⟨rfl, hbucket, hothers, ?_⟩
    dsimp only [Option.bind_some]
    rw [Option.map_eq_none_iff, hwait]

end World

end Fleet

end

namespace Fleet

/-! ### Tokens and calls -/

namespace World

/-- The balance of a category, brought up to date; none without a bucket. -/
def level (w : World Rat) (c : Category) : Rat :=
  (w.bucket? c).elim 0 fun b ↦ b.level w.now

variable {c : Category} {capacity rate : Rat} {w w' w'' : World Rat}

/-- Whether the calls of a category are counted and its bucket has a capacity and a rate. -/
structure Metered (c : Category) (capacity rate : Rat) (w : World Rat) : Prop where
  counted : ∃ a, w.cloud = .account a
  bucket : ∃ b, w.bucket? c = some b ∧ b.Sound w.now ∧ b.capacity = capacity ∧ b.rate = rate

/-- So many calls have got through since, and each has cost a token. -/
structure Charged (c : Category) (n : Nat) (w w' : World Rat) : Prop where
  calls : w'.calls c = w.calls c + n
  level : w'.level c + n = w.level c

theorem Charged.trans {m n : Nat} (h : Charged c m w w') (h' : Charged c n w' w'') :
    Charged c (m + n) w w'' := by
  refine ⟨by rw [h'.calls, h.calls, Nat.add_assoc], ?_⟩
  rw [Nat.cast_add, add_comm (m : Rat), ← add_assoc, h'.level, h.level]

namespace Metered

theorem level_mem (h : w.Metered c capacity rate) : 0 ≤ w.level c ∧ w.level c ≤ capacity := by
  obtain ⟨b, hb, hsound, rfl, -⟩ := h.bucket
  unfold level
  rw [hb]
  exact ⟨hsound.level_nonneg w.now, hsound.refill.le_capacity⟩

/-- A change that the category does not show. -/
theorem of_eq (h : w.Metered c capacity rate) (hnow : w'.now = w.now)
    (hbucket : w'.bucket? c = w.bucket? c) (hcloud : ∃ a, w'.cloud = .account a)
    (hcalls : w'.calls c = w.calls c) :
    w'.Metered c capacity rate ∧ Charged c 0 w w' := by
  refine ⟨⟨hcloud, ?_⟩, hcalls, ?_⟩
  · rw [hbucket, hnow]
    exact h.bucket
  · unfold level
    rw [hbucket, hnow, Nat.cast_zero, add_zero]

theorem ask (h : w.Metered c capacity rate) (q : Query) :
    (w.ask q).1.Metered c capacity rate ∧
      (w.ask q).1.calls c = w.calls c + (if q.category = c then 1 else 0) ∧
      (w.ask q).1.level c = w.level c := by
  obtain ⟨a, ha⟩ := h.counted
  unfold World.ask
  rw [ha]
  refine ⟨⟨⟨_, rfl⟩, h.bucket⟩, ?_, rfl⟩
  unfold calls
  rw [ha]
  exact a.calls.of_count q c

theorem draw (h : w.Metered c capacity rate) {q : Query} (hq : q.category = c) :
    (w.draw q).1.Metered c capacity rate ∧ (w.draw q).1.calls c = w.calls c ∧
      (w.draw q).1.level c = w.level c - (if 1 ≤ w.level c then 1 else 0) ∧
      ((w.draw q).2 = none ↔ 1 ≤ w.level c) := by
  obtain ⟨b, hb, hsound, rfl, rfl⟩ := h.bucket
  obtain ⟨hsame, hbucket, -, hwait⟩ := w.draw_eq q
  obtain ⟨hsound', hcapacity, hrate, hlevel⟩ := hsound.take
  rw [hq, hb] at hbucket hwait
  have hfull : w.level c = b.level w.now := by
    unfold level
    rw [hb]
    rfl
  have hnow : (w.draw q).1.now = w.now := by
    rw [hsame]
  have hcloud : (w.draw q).1.cloud = w.cloud := by
    rw [hsame]
  refine ⟨⟨hcloud ▸ h.counted, _, hbucket, hnow ▸ hsound', hcapacity, hrate⟩, ?_, ?_, ?_⟩
  · unfold calls
    rw [hcloud]
  · rw [hfull, ← hlevel]
    unfold level
    rw [hbucket, hnow]
    rfl
  · rw [hwait, hfull]
    exact b.isNone_take w.now

/-- An attempt lets its call through just when there is a whole token, which it takes. -/
theorem attempt (h : w.Metered c capacity rate) (resourceGroup : String) {q : Query}
    (hq : q.category = c) :
    (w.attempt resourceGroup q).1.Metered c capacity rate ∧
      Charged c (if 1 ≤ w.level c then 1 else 0) w (w.attempt resourceGroup q).1 ∧
      (w.level c < 1 → ∃ wake, (w.attempt resourceGroup q).2 = .waiting (.throttled wake)) := by
  obtain ⟨hmetered, hcalls, hlevel, hwhole⟩ := h.draw hq
  unfold World.attempt
  rcases hdraw : w.draw q with ⟨w', _ | wake⟩
  · rw [hdraw] at hmetered hcalls hlevel hwhole
    have hone : 1 ≤ w.level c := hwhole.mp rfl
    obtain ⟨hasked, hcounted, hkept⟩ := hmetered.ask q
    rw [if_pos hone] at hlevel ⊢
    rw [if_pos hq, hcalls] at hcounted
    dsimp only
    rw [world_collect]
    refine ⟨hasked, ⟨hcounted, ?_⟩, fun hlt ↦ absurd hone hlt.not_ge⟩
    rw [hkept, hlevel, Nat.cast_one]
    exact sub_add_cancel _ _
  · rw [hdraw] at hmetered hcalls hlevel hwhole
    have hless : ¬ 1 ≤ w.level c := fun hone ↦ by cases hwhole.mpr hone
    rw [if_neg hless, sub_zero] at hlevel
    rw [if_neg hless]
    refine ⟨hmetered, ⟨hcalls, ?_⟩, fun _ ↦ ⟨wake, rfl⟩⟩
    rw [Nat.cast_zero, add_zero]
    exact hlevel

/-- An attempt costs the other category nothing. -/
theorem attempt_of_ne (h : w.Metered c capacity rate) (resourceGroup : String) {q : Query}
    (hq : q.category ≠ c) :
    (w.attempt resourceGroup q).1.Metered c capacity rate ∧
      Charged c 0 w (w.attempt resourceGroup q).1 := by
  obtain ⟨hsame, -, hbucket, -⟩ := w.draw_eq q
  have hcloud : (w.draw q).1.cloud = w.cloud := by
    rw [hsame]
  have hcalls : (w.draw q).1.calls c = w.calls c := by
    unfold calls
    rw [hcloud]
  have hdrawn := h.of_eq (by rw [hsame]) (hbucket c hq) (hcloud ▸ h.counted) hcalls
  unfold World.attempt
  rcases hdraw : w.draw q with ⟨w', _ | wake⟩
  · rw [hdraw] at hdrawn
    obtain ⟨hasked, hcounted, hkept⟩ := hdrawn.1.ask q
    rw [if_neg hq, hdrawn.2.calls] at hcounted
    dsimp only
    rw [world_collect]
    refine ⟨hasked, hcounted, ?_⟩
    rw [hkept]
    exact hdrawn.2.level
  · rw [hdraw] at hdrawn
    exact hdrawn

end Metered

/-- What costs one token for each call that it lets through. -/
def Paid (c : Category) (capacity rate : Rat) (w w' : World Rat) : Prop :=
  w.Metered c capacity rate →
    w'.Metered c capacity rate ∧ w'.now = w.now ∧ ∃ n, Charged c n w w'

theorem paid_of_eq (hnow : w'.now = w.now) (hquotas : w'.quotas = w.quotas)
    (hcloud : w'.cloud = w.cloud) : Paid c capacity rate w w' := by
  intro h
  have hbucket : w'.bucket? c = w.bucket? c := by
    unfold bucket?
    rw [hquotas]
  have hcalls : w'.calls c = w.calls c := by
    unfold calls
    rw [hcloud]
  obtain ⟨hmetered, hcharged⟩ := h.of_eq hnow hbucket (hcloud ▸ h.counted) hcalls
  exact ⟨hmetered, hnow, 0, hcharged⟩

theorem borne_paid : Borne (Paid c capacity rate) where
  refl w := paid_of_eq rfl rfl rfl
  trans h h' hw := by
    obtain ⟨hmetered, hnow, m, hcharged⟩ := h hw
    obtain ⟨hmetered', hnow', n, hcharged'⟩ := h' hmetered
    exact ⟨hmetered', hnow'.trans hnow, m + n, hcharged.trans hcharged'⟩
  attempt w resourceGroup q hw := by
    have hnow : (w.attempt resourceGroup q).1.now = w.now := by
      obtain ⟨cloud, quotas, heq⟩ := w.attempt_eq resourceGroup q
      rw [heq]
    by_cases hq : q.category = c
    · obtain ⟨hmetered, hcharged, -⟩ := hw.attempt resourceGroup hq
      exact ⟨hmetered, hnow, _, hcharged⟩
    · obtain ⟨hmetered, hcharged⟩ := hw.attempt_of_ne resourceGroup hq
      exact ⟨hmetered, hnow, _, hcharged⟩
  newGroup w _ _ := paid_of_eq rfl rfl rfl
  books w _ _ _ _ _ := paid_of_eq rfl rfl rfl

theorem paid_changeCell (w : World Rat) (g : NodeGroup) (f : SizeCell → SizeCell) :
    Paid c capacity rate w (w.changeCell g f) :=
  paid_of_eq rfl rfl rfl

theorem paid_changeAccount (w : World Rat) {change : Account → Account}
    (hchange : ∀ a, (change a).calls = a.calls) :
    Paid c capacity rate w (w.changeAccount change) := by
  intro h
  obtain ⟨a, ha⟩ := h.counted
  unfold changeAccount
  rw [ha]
  dsimp only
  have hcalls : ({ w with cloud := .account (change a) } : World Rat).calls c = w.calls c := by
    unfold calls
    rw [ha]
    exact congrArg (CallCounts.of · c) (hchange a)
  have hsame : ({ w with cloud := .account (change a) } : World Rat).Metered c capacity rate ∧
      Charged c 0 w { w with cloud := .account (change a) } := h.of_eq rfl rfl ⟨_, rfl⟩ hcalls
  exact ⟨hsame.1, rfl, 0, hsame.2⟩

end World

/-! ### Events -/

/-- Whether the event leaves the counts of calls to the account. -/
def Event.KeepsCalls : Event → Prop
  | .account change => ∀ a, (change a).calls = a.calls
  | _ => True

/-- What an event does to a category: so many calls get through, each for one token, and the time
that passes is made up for at the rate, up to the capacity. -/
structure Event.Bills (c : Category) (capacity rate : Rat) (e : Event) (w w' : World Rat)
    (n : Nat) : Prop where
  now : w'.now = w.now + e.millis
  calls : w'.calls c = w.calls c + n
  level : w'.level c + n = min (w.level c + e.millis / 1000 * rate) capacity
  quiet : 0 < e.millis → n = 0

variable {c : Category} {capacity rate : Rat}

namespace World

variable {w w' : World Rat}

theorem Metered.bills (h : w.Metered c capacity rate) (hp : Paid c capacity rate w w') {e : Event}
    (he : e.millis = 0) :
    w'.Metered c capacity rate ∧ ∃ n, e.Bills c capacity rate w w' n := by
  obtain ⟨hmetered, hnow, n, hcharged⟩ := hp h
  refine ⟨hmetered, n, ⟨?_, hcharged.calls, ?_, fun hpos ↦ absurd he hpos.ne'⟩⟩
  · rw [he]
    exact hnow
  · rw [he, Nat.cast_zero, zero_div, zero_mul, add_zero, min_eq_left h.level_mem.2]
    exact hcharged.level

theorem Metered.elapse (h : w.Metered c capacity rate) (millis : Nat) :
    ({ w with now := w.now + millis } : World Rat).Metered c capacity rate ∧
      Event.Bills c capacity rate (.elapse millis) w { w with now := w.now + millis } 0 := by
  obtain ⟨b, hb, hsound, rfl, rfl⟩ := h.bucket
  have hlevel : ∀ now, ({ w with now } : World Rat).level c = b.level now := by
    intro now
    show (w.bucket? c).elim 0 (fun b ↦ b.level now) = b.level now
    rw [hb]
    rfl
  refine ⟨⟨h.counted, b, hb, hsound.mono (Nat.le_add_right _ _), rfl, rfl⟩, rfl, rfl, ?_,
    fun _ ↦ rfl⟩
  rw [Nat.cast_zero, add_zero, hlevel, show w.level c = b.level w.now from hlevel w.now]
  exact hsound.level_elapse millis

end World

theorem bills_step {f : Fleet Rat} (h : f.world.Metered c capacity rate) {e : Event}
    (he : e.KeepsCalls) :
    (f.step e).world.Metered c capacity rate ∧
      ∃ n, e.Bills c capacity rate f.world (f.step e).world n := by
  have hborne : Borne (World.Paid c capacity rate) := World.borne_paid
  cases e with
  | begin o =>
    refine h.bills (hborne.begin f fun g _ ↦ ?_) rfl
    exact hborne.startSize f.world f.site f.nextTicket fun w f ↦ w.paid_changeCell g f
  | poll t =>
    refine h.bills (hborne.poll f fun g phase _ ↦ ?_) rfl
    exact hborne.pollSize f.world f.site t (fun w f ↦ w.paid_changeCell g f) phase
  | elapse millis =>
    obtain ⟨hmetered, hbills⟩ := h.elapse millis
    exact ⟨hmetered, 0, hbills⟩
  | stop t => exact h.bills (hborne.stop f t) rfl
  | account change =>
    refine h.bills ?_ rfl
    exact World.paid_changeAccount f.world he
  | line line =>
    refine h.bills ?_ rfl
    exact World.paid_of_eq rfl rfl rfl
  | files files =>
    refine h.bills ?_ rfl
    exact World.paid_of_eq rfl rfl rfl
  | register candidate => exact h.bills (hborne.register f.world candidate) rfl
  | unregister name => exact h.bills (hborne.unregister f.world name) rfl
  | replace candidates instances => exact h.bills (hborne.replace f.world candidates instances) rfl

/-! ### Windows -/

/-- The moments at which calls of a category get through in a history, one for each call. -/
def callTimes (f : Fleet Rat) (c : Category) : List Event → List Nat
  | [] => []
  | e :: rest =>
    List.replicate ((f.step e).world.calls c - f.world.calls c) f.world.now ++
      (f.step e).callTimes c rest

/-- Of the calls of a category, those of a window. -/
def callsWithin (f : Fleet Rat) (c : Category) (events : List Event) (first last : Nat) : Nat :=
  ((f.callTimes c events).filter fun t ↦ first ≤ t ∧ t ≤ last).length

theorem callsWithin_cons (f : Fleet Rat) (c : Category) (e : Event) (rest : List Event)
    (first last : Nat) :
    f.callsWithin c (e :: rest) first last =
      (if first ≤ f.world.now ∧ f.world.now ≤ last then
        (f.step e).world.calls c - f.world.calls c else 0) +
        (f.step e).callsWithin c rest first last := by
  show ((List.replicate _ f.world.now ++ (f.step e).callTimes c rest).filter _).length = _
  rw [List.filter_append, List.length_append, List.filter_replicate]
  by_cases hin : first ≤ f.world.now ∧ f.world.now ≤ last
  · rw [if_pos hin, if_pos (decide_eq_true hin), List.length_replicate]
    rfl
  · rw [if_neg hin, if_neg fun h ↦ hin (of_decide_eq_true h)]
    rfl

/-- What is there to pay for the rest of a window: a full bucket at most until it begins, and what
its time adds. -/
def World.reserve (w : World Rat) (c : Category) (capacity rate : Rat) (first last : Nat) : Rat :=
  if last < w.now then 0
  else if w.now < first then capacity + (last - first : Nat) / 1000 * rate
  else w.level c + (last - w.now : Nat) / 1000 * rate

theorem World.Metered.rate_nonneg {w : World Rat} (h : w.Metered c capacity rate) : 0 ≤ rate := by
  obtain ⟨b, -, hsound, -, rfl⟩ := h.bucket
  exact hsound.rate

theorem World.Metered.reserve_nonneg {w : World Rat} (h : w.Metered c capacity rate)
    (first last : Nat) : 0 ≤ w.reserve c capacity rate first last := by
  obtain ⟨hnonneg, hle⟩ := h.level_mem
  have hpaid : ∀ n : Nat, 0 ≤ (n : Rat) / 1000 * rate := fun n ↦
    mul_nonneg (div_nonneg (Nat.cast_nonneg n) (by norm_num)) h.rate_nonneg
  unfold reserve
  split_ifs
  · exact le_rfl
  · exact add_nonneg (hnonneg.trans hle) (hpaid _)
  · exact add_nonneg hnonneg (hpaid _)

/-- Before its window a reserve is a full bucket and what the window adds. -/
theorem World.Metered.reserve_le {w : World Rat} (h : w.Metered c capacity rate) {first : Nat}
    (hfirst : w.now ≤ first) (millis : Nat) :
    w.reserve c capacity rate first (first + millis) ≤ capacity + rate * (millis / 1000) := by
  unfold reserve
  rw [if_neg (Nat.not_lt.mpr (Nat.le_add_right_of_le hfirst)), Nat.add_sub_cancel_left,
    mul_comm rate]
  split_ifs with hbefore
  · exact le_rfl
  · have hnow : w.now = first := Nat.le_antisymm hfirst (Nat.le_of_not_lt hbefore)
    rw [hnow, Nat.add_sub_cancel_left]
    exact add_le_add_left h.level_mem.2 _

namespace Event.Bills

variable {e : Event} {w w' : World Rat} {n : Nat} {first last : Nat}

/-- Calls that get through in the window are paid for out of the reserve. -/
theorem reserve_of_still (h : e.Bills c capacity rate w w' n) (hw : w.Metered c capacity rate)
    (he : e.millis = 0) (hlast : w.now ≤ last) :
    (if first ≤ w.now ∧ w.now ≤ last then (n : Rat) else 0) +
        w'.reserve c capacity rate first last ≤
      w.reserve c capacity rate first last := by
  have hnow : w'.now = w.now := by
    rw [h.now, he, Nat.add_zero]
  have hlevel : w'.level c + n = w.level c := by
    rw [h.level, he, Nat.cast_zero, zero_div, zero_mul, add_zero, min_eq_left hw.level_mem.2]
  unfold World.reserve
  rw [hnow, if_neg (Nat.not_lt.mpr hlast), if_neg (Nat.not_lt.mpr hlast)]
  by_cases hfirst : w.now < first
  · rw [if_pos hfirst, if_pos hfirst, if_neg fun hin ↦ absurd hfirst (Nat.not_lt.mpr hin.1),
      zero_add]
  · rw [if_neg hfirst, if_neg hfirst, if_pos ⟨Nat.le_of_not_lt hfirst, hlast⟩]
    linarith

/-- Time that passes adds no more than the reserve has set aside for it. -/
theorem reserve_of_passing (h : e.Bills c capacity rate w w' n) (hw : w.Metered c capacity rate)
    (hn : n = 0) (hlast : w'.now ≤ last) :
    w'.reserve c capacity rate first last ≤ w.reserve c capacity rate first last := by
  have hlast' : w.now ≤ last := by
    have hnow := h.now
    omega
  have hlevel := h.level
  rw [hn, Nat.cast_zero, add_zero] at hlevel
  unfold World.reserve
  rw [if_neg (Nat.not_lt.mpr hlast), if_neg (Nat.not_lt.mpr hlast')]
  by_cases hfirst : w'.now < first
  · have hfirst' : w.now < first :=
      Nat.lt_of_le_of_lt (by rw [h.now]; exact Nat.le_add_right _ _) hfirst
    rw [if_pos hfirst, if_pos hfirst']
  · rw [if_neg hfirst]
    have hrate := hw.rate_nonneg
    split_ifs with hfirst'
    · -- the window begins while the time passes: the bucket is full at most
      have hfull : w'.level c ≤ capacity := hlevel ▸ min_le_right _ _
      have hrest : ((last - w'.now : Nat) : Rat) ≤ (last - first : Nat) := by
        exact_mod_cast Nat.sub_le_sub_left (Nat.le_of_not_lt hfirst) last
      have hpaid : (last - w'.now : Nat) / 1000 * rate ≤ (last - first : Nat) / 1000 * rate :=
        mul_le_mul_of_nonneg_right (div_le_div_of_nonneg_right hrest (by norm_num)) hrate
      exact add_le_add hfull hpaid
    · have hgrown : w'.level c ≤ w.level c + e.millis / 1000 * rate := hlevel ▸ min_le_left _ _
      have hrest : ((last - w.now : Nat) : Rat) = (last - w'.now : Nat) + e.millis := by
        have hnow := h.now
        rw [← Nat.cast_add]
        congr 1
        omega
      rw [hrest]
      linarith

/-- What an event lets through in the window, it takes from the reserve. -/
theorem reserve (h : e.Bills c capacity rate w w' n) (hw : w.Metered c capacity rate)
    (first last : Nat) :
    (if first ≤ w.now ∧ w.now ≤ last then (n : Rat) else 0) +
        w'.reserve c capacity rate first last ≤
      w.reserve c capacity rate first last := by
  by_cases hpast : last < w.now
  · have hpast' : last < w'.now := by
      rw [h.now]
      exact Nat.lt_add_right _ hpast
    unfold World.reserve
    rw [if_pos hpast, if_pos hpast', if_neg fun hin ↦ absurd hpast (Nat.not_lt.mpr hin.2), add_zero]
  · by_cases he : e.millis = 0
    · exact h.reserve_of_still hw he (Nat.le_of_not_lt hpast)
    · have hn := h.quiet (Nat.pos_of_ne_zero he)
      rw [hn, Nat.cast_zero, ite_self, zero_add]
      by_cases hover : last < w'.now
      · refine le_trans ?_ (hw.reserve_nonneg first last)
        unfold World.reserve
        rw [if_pos hover]
      · exact h.reserve_of_passing hw hn (Nat.le_of_not_lt hover)

end Event.Bills

/-- The calls of a window are paid for out of the reserve, whatever the history. -/
theorem callsWithin_le {f : Fleet Rat} (h : f.world.Metered c capacity rate) {events : List Event}
    (he : ∀ e ∈ events, e.KeepsCalls) (first last : Nat) :
    (f.callsWithin c events first last : Rat) ≤ f.world.reserve c capacity rate first last := by
  induction events generalizing f with
  | nil => exact h.reserve_nonneg first last
  | cons e rest ih =>
    obtain ⟨hmetered, n, hbills⟩ := bills_step h (he e List.mem_cons_self)
    have hrest := ih hmetered fun x hx ↦ he x (List.mem_cons_of_mem _ hx)
    have hcalls : (f.step e).world.calls c - f.world.calls c = n := by
      rw [hbills.calls, Nat.add_sub_cancel_left]
    rw [callsWithin_cons, hcalls, Nat.cast_add, Nat.cast_ite, Nat.cast_zero]
    exact (add_le_add_right hrest _).trans (hbills.reserve h first last)

theorem metered_after {f : Fleet Rat} (h : f.world.Metered c capacity rate) {events : List Event}
    (he : ∀ e ∈ events, e.KeepsCalls) : (f.after events).world.Metered c capacity rate := by
  induction events generalizing f with
  | nil => exact h
  | cons e rest ih =>
    exact ih (bills_step h (he e List.mem_cons_self)).1 fun x hx ↦ he x (List.mem_cons_of_mem _ hx)

theorem metered_fresh (site : Site) (a : Account) (files : Files) {l : Limits} {q : Query}
    (henabled : (l.forCategory q.category).enabled = true)
    (hqps : Number.Binary.zero.lt (l.forCategory q.category).qps = true) :
    (fresh site (.account a) files (some (.ofLimits l 0))).world.Metered q.category
      (max (l.forCategory q.category).bucket.toNat 1 : Nat)
      (l.forCategory q.category).qps.value := by
  have hbucket : (Quotas.ofLimits l 0 : Quotas Rat).bucket? q.category =
      Limiter.bucket? (l.forCategory q.category).enabled (l.forCategory q.category).qps
        (l.forCategory q.category).bucket 0 := by
    cases q <;> rfl
  unfold Limiter.bucket? at hbucket
  rw [henabled, hqps] at hbucket
  exact ⟨⟨a, rfl⟩, _, hbucket, Bucket.sound_new hqps _ 0, rfl, rfl⟩

/-- How calls are admitted to the account in a history. -/
structure Admits (f : Fleet Rat) (c : Category) (s : Settings) (events : List Event) : Prop where
  /-- A call that tries for a token takes one and gets through, or takes none and waits. -/
  attempt : ∀ before, before <+: events → ∀ resourceGroup (q : Query), q.category = c →
    World.Charged c (if 1 ≤ (f.after before).world.level c then 1 else 0) (f.after before).world
        ((f.after before).world.attempt resourceGroup q).1 ∧
      ((f.after before).world.level c < 1 → ∃ wake,
        ((f.after before).world.attempt resourceGroup q).2 = .waiting (.throttled wake))
  /-- Every event takes as many tokens as it lets calls through, and time makes up for them. -/
  bills : ∀ before e, before ++ [e] <+: events → ∃ n,
    e.Bills c (max s.bucket.toNat 1 : Nat) s.qps.value (f.after before).world
      ((f.after before).step e).world n
  /-- At most so many calls get through in a window of that many milliseconds,
  both ends included. -/
  window : ∀ first millis, (f.callsWithin c events first (first + millis) : Rat) ≤
    (max s.bucket.toNat 1 : Nat) + s.qps.value * (millis / 1000)

/-- Calls are admitted to the account for one token each, and in no window more than a full bucket
and what its rate adds in the meantime. -/
theorem admits_after (site : Site) (a : Account) (files : Files) {l : Limits} {q : Query}
    (henabled : (l.forCategory q.category).enabled = true)
    (hqps : Number.Binary.zero.lt (l.forCategory q.category).qps = true) {events : List Event}
    (he : ∀ e ∈ events, e.KeepsCalls) :
    (fresh site (.account a) files (some (.ofLimits l 0))).Admits q.category
      (l.forCategory q.category) events := by
  have hfresh := metered_fresh site a files henabled hqps
  have hmetered : ∀ before, before <+: events → World.Metered q.category _ _
      ((fresh site (.account a) files (some (.ofLimits l 0))).after before).world :=
    fun before hbefore ↦ metered_after hfresh fun e h ↦ he e (hbefore.subset h)
  constructor
  · intro before hbefore resourceGroup q' hq
    exact ((hmetered before hbefore).attempt resourceGroup hq).2
  · intro before e hbefore
    have hmem : e ∈ events := hbefore.subset (by simp)
    exact (bills_step (hmetered before ((List.prefix_append _ _).trans hbefore)) (he e hmem)).2
  · intro first millis
    refine (callsWithin_le hfresh he first (first + millis)).trans ?_
    exact hfresh.reserve_le (Nat.zero_le first) millis

/-- Two requests in a second, one at a time. -/
def tightLimits : Limits :=
  ⟨⟨true, .ofNat 2, 1, .zero, 0⟩, fun _ ↦ none⟩

def tightFleet : Fleet Rat :=
  fresh smallSite (.account smallAccount) .empty (some (.ofLimits tightLimits 0))

/-- Three questions at once, the last of which is given up when its deadline has passed. -/
def crowding : List Event :=
  [.begin (.call "rg" .scaleSets), .begin (.inquire (.scaleSet "db")), .begin (.inquire .scaleSets),
    .elapse 500, .poll 1, .poll 2, .account (·.setFailure (some "down")), .elapse 499, .poll 2,
    .elapse 29001, .poll 2]

theorem admits_after_crowding :
    tightFleet.Admits .virtualMachineScaleSet tightLimits.defaults crowding ∧
      tightFleet.callTimes .virtualMachineScaleSet crowding = [0, 500, 30000] ∧
      ((tightFleet.after crowding).activities.map Prod.fst) = [0, 1] := by
  have hkeeps : ∀ e ∈ crowding, e.KeepsCalls := by
    simp [crowding, Event.KeepsCalls, Account.setFailure]
  have hadmits :=
    admits_after smallSite smallAccount .empty (l := tightLimits) (q := .scaleSets) rfl
    (by decide +kernel) hkeeps
  exact ⟨hadmits, by decide +kernel, by decide +kernel⟩

end Fleet

end NodeFleet
