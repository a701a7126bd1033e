import NodeFleet.Proofs.Admission
import NodeFleet.Proofs.Refusals
/-!
Waiting for tokens. Tokens that are taken one after the other, each by asking again after every
wait, come at moments that the limiter alone decides. A question to a cloud that answers at once
comes to an answer just when it gets its token; refused, it waits, or gives up if its deadline has
passed.
-/

set_option autoImplicit false
set_option relaxedAutoImplicit false

namespace NodeFleet

open NodeFleet.Quota

namespace Quota.Limiter

variable {α : Type} [Balance α] {d : Direction} {l l' : Limiter α}
  {now due n t fuel : Nat} {wait : Duration}

/-! ### Tokens one after the other -/

theorem acquire_of_taken (h : (l.take now d).2 = none) (fuel : Nat) :
    l.acquire (fuel + 1) now d = some (now, (l.take now d).1) := by
  rcases htake : l.take now d with ⟨next, waits⟩
  rw [htake] at h
  obtain rfl : waits = none := h
  unfold acquire
  rw [htake]

theorem acquire_of_refused (h : (l.take now d).2 = some wait) (fuel : Nat) :
    l.acquire (fuel + 1) now d = (l.take now d).1.acquire fuel (wakeAfter now wait) d := by
  rcases htake : l.take now d with ⟨next, waits⟩
  rw [htake] at h
  obtain rfl : waits = some wait := h
  conv_lhs => unfold acquire
  rw [htake]

theorem le_of_acquire (h : l.acquire fuel now d = some (due, l')) : now ≤ due := by
  induction fuel generalizing l now with
  | zero => cases h
  | succ fuel ih =>
    cases htake : (l.take now d).2 with
    | none =>
      rw [acquire_of_taken htake] at h
      obtain ⟨rfl, -⟩ := Prod.mk.inj (Option.some.inj h)
      exact le_rfl
    | some wait =>
      rw [acquire_of_refused htake] at h
      exact (Nat.le_add_right now _).trans (ih h)

/-- More rounds make no difference to whoever has got a token. -/
theorem acquire_unique {fuel' : Nat} {r r' : Nat × Limiter α}
    (h : l.acquire fuel now d = some r) (h' : l.acquire fuel' now d = some r') : r = r' := by
  induction fuel generalizing l now fuel' with
  | zero => cases h
  | succ fuel ih =>
    cases fuel' with
    | zero => cases h'
    | succ fuel' =>
      cases htake : (l.take now d).2 with
      | none =>
        rw [acquire_of_taken htake] at h h'
        exact Option.some.inj (h.symm.trans h')
      | some wait =>
        rw [acquire_of_refused htake] at h h'
        exact ih h h'

/-- So many tokens are taken from a moment on, one after the other, the last of them at `t`. -/
inductive Serves (d : Direction) : Limiter α → Nat → Nat → Nat → Prop
  | none (l : Limiter α) (now : Nat) : Serves d l now 0 now
  | next {l l' : Limiter α} {fuel now due n t : Nat} (taken : l.acquire fuel now d = some (due, l'))
      (rest : Serves d l' due n t) : Serves d l now (n + 1) t

namespace Serves

theorem le (h : l.Serves d now n t) : now ≤ t := by
  induction h with
  | none l now => exact le_rfl
  | next taken rest ih => exact (le_of_acquire taken).trans ih

theorem unique {t' : Nat} (h : l.Serves d now n t) (h' : l.Serves d now n t') : t = t' := by
  induction h with
  | none l now =>
    cases h'
    rfl
  | next taken rest ih =>
    cases h' with
    | next taken' rest' =>
      obtain ⟨rfl, rfl⟩ := Prod.mk.inj (acquire_unique taken taken')
      exact ih rest'

end Serves

theorem serves_of_taken (h : (l.take now d).2 = none) :
    l.Serves d now (n + 1) t ↔ (l.take now d).1.Serves d now n t := by
  constructor
  · intro hserves
    cases hserves with
    | @next _ _ fuel _ due _ _ taken rest =>
      cases fuel with
      | zero => cases taken
      | succ fuel =>
        rw [acquire_of_taken h] at taken
        obtain ⟨rfl, rfl⟩ := Prod.mk.inj (Option.some.inj taken)
        exact rest
  · exact fun rest ↦ .next (acquire_of_taken h 0) rest

theorem serves_of_refused (h : (l.take now d).2 = some wait) :
    l.Serves d now (n + 1) t ↔ (l.take now d).1.Serves d (wakeAfter now wait) (n + 1) t := by
  constructor
  · intro hserves
    cases hserves with
    | @next _ _ fuel _ due _ _ taken rest =>
      cases fuel with
      | zero => cases taken
      | succ fuel =>
        rw [acquire_of_refused h] at taken
        exact .next taken rest
  · intro hserves
    cases hserves with
    | next taken rest => exact .next ((acquire_of_refused h _).trans taken) rest

theorem lt_wakeAfter (now : Nat) (wait : Duration) : now < wakeAfter now wait := by
  unfold wakeAfter
  omega

end Quota.Limiter

namespace Fleet

variable {α : Type}

/-! ### The limiter of a category -/

/-- The limiter of a category, if it has any. -/
def Quotas.limiter (quotas : Quotas α) : Category → Limiter α
  | .virtualMachineScaleSet => quotas.scaleSets
  | .virtualMachine => quotas.virtualMachines
  | c => ⟨c, none, none⟩

namespace World

/-- The limiter of a category; without quotas it lets everything through. -/
def limiter (w : World α) (c : Category) : Limiter α :=
  w.quotas.elim ⟨c, none, none⟩ fun quotas ↦ quotas.limiter c

/-- Milliseconds from a question to its answer. -/
def lag (w : World α) (q : Query) : Nat :=
  (match w.cloud with
    | .account a => a.latency
    | .directory _ => 0) + w.line.delay q

/-- Every question is answered at once. -/
def Prompt (w : World α) : Prop :=
  ∀ q, w.lag q = 0

/-- The answer that an inquiry gets now. -/
def reply (w : World α) (site : Site) (q : Query) : Except Error q.Answer :=
  (w.answer site.resourceGroup q).mapError (.queryFailed q site.resourceGroup)

/-- Worlds that differ at most in calls and tokens, and answer alike. -/
structure Queried (w w' : World α) : Prop where
  same : ∃ cloud quotas, w' = { w with cloud, quotas }
  answers : ∀ resourceGroup q, w'.answer resourceGroup q = w.answer resourceGroup q
  lag : ∀ q, w'.lag q = w.lag q

namespace Queried

variable {w w' w'' : World α}

theorem refl (w : World α) : Queried w w :=
  ⟨⟨w.cloud, w.quotas, rfl⟩, fun _ _ ↦ rfl, fun _ ↦ rfl⟩

theorem trans (h : Queried w w') (h' : Queried w' w'') : Queried w w'' := by
  obtain ⟨⟨cloud, quotas, rfl⟩, hanswers, hlag⟩ := h
  obtain ⟨⟨cloud', quotas', rfl⟩, hanswers', hlag'⟩ := h'
  exact ⟨⟨cloud', quotas', rfl⟩, fun resourceGroup q ↦ (hanswers' _ q).trans (hanswers _ q),
    fun q ↦ (hlag' q).trans (hlag q)⟩

theorem now (h : Queried w w') : w'.now = w.now := by
  obtain ⟨⟨cloud, quotas, rfl⟩, -, -⟩ := h
  rfl

theorem reply (h : Queried w w') (site : Site) (q : Query) : w'.reply site q = w.reply site q := by
  unfold World.reply
  rw [h.answers]

theorem prompt (h : Queried w w') (hp : w.Prompt) : w'.Prompt :=
  fun q ↦ (h.lag q).trans (hp q)

end Queried

theorem ask_spec (w : World α) (q : Query) :
    (w.ask q).2 = w.now + w.lag q ∧ Queried w (w.ask q).1 ∧ (w.ask q).1.quotas = w.quotas := by
  unfold ask
  split
  · rename_i a hcloud
    refine ⟨?_, ⟨⟨_, w.quotas, rfl⟩, ?_, ?_⟩, rfl⟩
    · simp only [lag, hcloud]
      omega
    · intro resourceGroup q'
      simp only [answer, hcloud]
      rfl
    · intro q'
      simp only [lag, hcloud]
  · rename_i directory hcloud
    refine ⟨?_, .refl w, rfl⟩
    simp only [lag, hcloud]
    omega

variable [Balance α]

/-- What a question leaves behind that has asked its limiter for a token. -/
structure Drawn (q : Query) (w w' : World α) : Prop where
  queried : Queried w w'
  limiter : w'.limiter q.category = ((w.limiter q.category).take w.now .read).1
  others : ∀ c, c ≠ q.category → w'.limiter c = w.limiter c

theorem drawn_draw (w : World α) (q : Query) :
    Drawn q w (w.draw q).1 ∧
      (w.draw q).2 = ((w.limiter q.category).take w.now .read).2.map (wakeAfter w.now) := by
  rcases w with
    ⟨now, cloud, line, files, _ | quotas, cells, registry, pinned, refreshedAt, gate, journal⟩
  · exact ⟨⟨.refl _, rfl, fun _ _ ↦ rfl⟩, rfl⟩
  · refine ⟨⟨⟨⟨cloud, _, rfl⟩, fun _ _ ↦ rfl, fun _ ↦ rfl⟩, ?_, ?_⟩, ?_⟩
    · cases q <;> rfl
    · intro c hc
      cases q <;> cases c <;> first | rfl | exact absurd rfl hc
    · cases q <;> rfl

theorem Drawn.ask {q : Query} {w w' : World α} (h : Drawn q w w') :
    Drawn q w (w'.ask q).1 := by
  obtain ⟨-, hqueried, hquotas⟩ := w'.ask_spec q
  have hlimiter : ∀ c, (w'.ask q).1.limiter c = w'.limiter c := by
    intro c
    unfold World.limiter
    rw [hquotas]
  refine ⟨h.queried.trans hqueried, ?_, ?_⟩
  · rw [hlimiter]
    exact h.limiter
  · intro c hc
    rw [hlimiter]
    exact h.others c hc

theorem drawn_attempt (w : World α) (resourceGroup : String) (q : Query) :
    Drawn q w (w.attempt resourceGroup q).1 := by
  have hdrawn := (w.drawn_draw q).1
  unfold attempt
  rcases hdraw : w.draw q with ⟨w', _ | wake⟩
  · rw [hdraw] at hdrawn
    dsimp only
    rw [world_collect]
    exact hdrawn.ask
  · rw [hdraw] at hdrawn
    exact hdrawn

/-- A question that gets its token is answered there and then; one that gets none waits
to ask again. -/
theorem attempt_snd {w : World α} (hp : w.Prompt) (resourceGroup : String) (q : Query) :
    (w.attempt resourceGroup q).2 =
      match ((w.limiter q.category).take w.now .read).2 with
      | none => .finished (w.answer resourceGroup q)
      | some wait => .waiting (.throttled (wakeAfter w.now wait)) := by
  obtain ⟨hdrawn, hwait⟩ := w.drawn_draw q
  unfold attempt
  rcases hdraw : w.draw q with ⟨w', _ | wake⟩
  · rw [hdraw] at hdrawn hwait
    have htaken : ((w.limiter q.category).take w.now .read).2 = none :=
      Option.map_eq_none_iff.mp hwait.symm
    obtain ⟨hdue, hasked, -⟩ := w'.ask_spec q
    have hanswered : w'.now + w'.lag q ≤ (w'.ask q).1.now := by
      rw [hasked.now, hdrawn.queried.prompt hp q]
      exact le_rfl
    dsimp only
    rw [htaken, hdue]
    unfold collect
    rw [if_pos hanswered]
    dsimp only
    rw [hasked.answers, hdrawn.queried.answers]
  · rw [hdraw] at hwait
    obtain ⟨wait, hrefused, rfl⟩ := Option.map_eq_some_iff.mp hwait.symm
    dsimp only
    rw [hrefused]

end World

/-- Whether a call that has no token yet may ask for one now. -/
def CallPhase.IsDue (now : Nat) : CallPhase → Prop
  | fresh => True
  | throttled wake => wake ≤ now
  | underWay _ => False

namespace World

variable {w : World α} {site : Site} {q : Query} {i : Inquiry}

/-- What an inquiry comes to that its limiter leaves without an answer. -/
def refused (w : World α) (site : Site) (q : Query) (i : Inquiry) :
    Progress Inquiry (Except Error q.Answer) :=
  if i.expires ≤ w.now then .finished (.error (.deadlineExceeded q site.inventoryTimeout))
  else .waiting i

variable [Balance α]

/-- An inquiry that may ask for a token comes to its answer just when it gets one. -/
theorem pollInquiry_of_due (site : Site) (q : Query) (hp : w.Prompt)
    (hdue : i.phase.IsDue w.now) :
    Drawn q w (w.pollInquiry site q i).1 ∧
      (w.pollInquiry site q i).2 =
        match ((w.limiter q.category).take w.now .read).2 with
        | none => .finished (w.reply site q)
        | some wait => w.refused site q { i with phase := .throttled (wakeAfter w.now wait) } := by
  have hcall : w.pollCall site.resourceGroup q i.phase = w.attempt site.resourceGroup q := by
    cases hphase : i.phase with
    | fresh => rfl
    | throttled wake =>
      rw [hphase] at hdue
      exact if_pos hdue
    | underWay due =>
      rw [hphase] at hdue
      exact hdue.elim
  have hdrawn := w.drawn_attempt site.resourceGroup q
  have hattempt := attempt_snd hp site.resourceGroup q
  unfold pollInquiry
  rw [hcall]
  rcases hpolled : w.attempt site.resourceGroup q with ⟨w', outcome⟩
  rw [hpolled] at hdrawn hattempt
  cases htake : ((w.limiter q.category).take w.now .read).2 with
  | none =>
    rw [htake] at hattempt
    obtain rfl : outcome = .finished (w.answer site.resourceGroup q) := hattempt
    unfold reply
    cases w.answer site.resourceGroup q with
    | ok a => exact ⟨hdrawn, rfl⟩
    | error e => exact ⟨hdrawn, rfl⟩
  | some wait =>
    rw [htake] at hattempt
    obtain rfl : outcome = .waiting (.throttled (wakeAfter w.now wait)) := hattempt
    dsimp only [refused]
    rw [hdrawn.queried.now]
    split_ifs
    · exact ⟨hdrawn, rfl⟩
    · exact ⟨hdrawn, rfl⟩

/-- What becomes of an inquiry that asks for a token, and what tokens its limiter has for others. -/
inductive Requested (w : World α) (site : Site) (q : Query) (i : Inquiry) :
    World α × Progress Inquiry (Except Error q.Answer) → Prop
  | served {w' : World α} (taken : ((w.limiter q.category).take w.now .read).2 = none)
      (serves : ∀ n t, (w.limiter q.category).Serves .read w.now (n + 1) t ↔
        (w'.limiter q.category).Serves .read w.now n t) :
      Requested w site q i (w', .finished (w.reply site q))
  | waits {w' : World α} {wait : Duration} {wake : Nat}
      (refused : ((w.limiter q.category).take w.now .read).2 = some wait)
      (wakes : wakeAfter w.now wait = wake) (early : w.now < i.expires) (later : w.now < wake)
      (serves : ∀ n t, (w.limiter q.category).Serves .read w.now (n + 1) t ↔
        (w'.limiter q.category).Serves .read wake (n + 1) t) :
      Requested w site q i (w', .waiting ⟨i.expires, .throttled wake⟩)
  | expired {w' : World α} (late : i.expires ≤ w.now)
      (serves : ∀ n t, (w.limiter q.category).Serves .read w.now (n + 1) t → w.now < t) :
      Requested w site q i (w', .finished (.error (.deadlineExceeded q site.inventoryTimeout)))

theorem requested_pollInquiry (site : Site) (q : Query) (hp : w.Prompt)
    (hdue : i.phase.IsDue w.now) :
    Drawn q w (w.pollInquiry site q i).1 ∧
      Requested w site q i (w.pollInquiry site q i) := by
  obtain ⟨hdrawn, hpoll⟩ := pollInquiry_of_due site q hp hdue
  rcases hpolled : w.pollInquiry site q i with ⟨w', outcome⟩
  rw [hpolled] at hdrawn hpoll
  have hlimiter : w'.limiter q.category = ((w.limiter q.category).take w.now .read).1 :=
    hdrawn.limiter
  refine ⟨hdrawn, ?_⟩
  cases htake : ((w.limiter q.category).take w.now .read).2 with
  | none =>
    rw [htake] at hpoll
    obtain rfl : outcome = .finished (w.reply site q) := hpoll
    refine .served htake fun n t ↦ ?_
    rw [hlimiter]
    exact Limiter.serves_of_taken htake
  | some wait =>
    rw [htake] at hpoll
    have hserves : ∀ n t, (w.limiter q.category).Serves .read w.now (n + 1) t ↔
        (w'.limiter q.category).Serves .read (wakeAfter w.now wait) (n + 1) t := by
      intro n t
      rw [hlimiter]
      exact Limiter.serves_of_refused htake
    by_cases hlate : i.expires ≤ w.now
    · obtain rfl : outcome = .finished (.error (.deadlineExceeded q site.inventoryTimeout)) :=
        hpoll.trans (if_pos hlate)
      exact .expired hlate fun n t ht ↦
        (Limiter.lt_wakeAfter w.now wait).trans_le ((hserves n t).mp ht).le
    · obtain rfl : outcome = .waiting { i with phase := .throttled (wakeAfter w.now wait) } :=
        hpoll.trans (if_neg hlate)
      exact .waits htake rfl (Nat.lt_of_not_le hlate) (Limiter.lt_wakeAfter w.now wait) hserves

/-- An inquiry that may not ask for a token yet only looks at its deadline. -/
theorem pollInquiry_of_early (site : Site) (q : Query) {wake : Nat}
    (hphase : i.phase = .throttled wake) (h : w.now < wake) :
    w.pollInquiry site q i = (w, w.refused site q i) := by
  unfold pollInquiry refused
  rw [hphase]
  dsimp only [pollCall]
  rw [if_neg h.not_ge]
  dsimp only
  rw [← hphase]
  split_ifs <;> rfl

end World

end Fleet

end NodeFleet
