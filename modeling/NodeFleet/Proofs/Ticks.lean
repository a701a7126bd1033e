import Mathlib.Order.Monotone.Basic
import NodeFleet.Proofs.GateLine
import NodeFleet.Proofs.SideBySide
/-!
A refresher at work. As long as each of its cycles ends before the next tick and nobody else writes,
it does tick for tick what calls to refresh would do that begin at the ticks, one after the other:
at every moment the world is the one that they make of it, whatever else is asked meanwhile. No
cycle that fails keeps it from the next tick.
-/

set_option autoImplicit false
set_option relaxedAutoImplicit false

namespace NodeFleet.Fleet

open NodeFleet.Discovery NodeFleet.Quota

variable {α : Type}

/-! ### Time -/

def elapsed : List Event → Nat
  | [] => 0
  | e :: rest => e.millis + elapsed rest

theorem elapsed_append (before later : List Event) :
    elapsed (before ++ later) = elapsed before + elapsed later := by
  induction before with
  | nil => exact (Nat.zero_add _).symm
  | cons e rest ih =>
    show e.millis + elapsed (rest ++ later) = e.millis + elapsed rest + elapsed later
    rw [ih, Nat.add_assoc]

theorem borne_now [Balance α] : Borne fun w w' : World α ↦ w'.now = w.now where
  refl w := rfl
  trans h h' := h'.trans h
  attempt w resourceGroup q := by
    obtain ⟨cloud, quotas, heq⟩ := w.attempt_eq resourceGroup q
    rw [heq]
  newGroup w c period := rfl
  books w _ _ _ _ _ := rfl

/-- Time goes by when it elapses, and only then. -/
theorem now_step [Balance α] (f : Fleet α) (e : Event) :
    (f.step e).world.now = f.world.now + e.millis := by
  cases e with
  | elapse millis => rfl
  | _ => exact borne_now.step f (fun _ _ _ ↦ rfl) (fun _ _ _ _ ↦ rfl) fun _ h ↦ nomatch h

theorem now_after [Balance α] (f : Fleet α) (events : List Event) :
    (f.after events).world.now = f.world.now + elapsed events := by
  induction events using List.reverseRecOn with
  | nil => rfl
  | append_singleton before e ih =>
    rw [after_concat, now_step, ih, elapsed_append, Nat.add_assoc]
    rfl

/-! ### Refreshers -/

namespace Refresher

/-- The refresher that a cycle leaves when no other is due before the next tick. -/
def tending (interval next : Nat) (r : World α × Progress CyclePhase (Except Error Unit)) :
    World α × Refresher :=
  (r.1, ⟨interval, some next, 0, match r.2 with
    | .waiting phase => some phase
    | .finished _ => none⟩)

variable [Balance α] {w : World α} {interval next : Nat}

theorem absorb_of_lt {now : Nat} (h : now < next) (running : Option CyclePhase) :
    absorb ⟨interval, some next, 0, running⟩ now = ⟨interval, some next, 0, running⟩ := by
  unfold absorb
  dsimp only
  rw [if_neg (Nat.not_le_of_lt h)]

theorem absorb_of_due (interval now : Nat) :
    absorb ⟨interval, some now, 0, none⟩ now =
      ⟨interval, some (now + max interval 1), 1, none⟩ := by
  unfold absorb
  dsimp only
  rw [if_pos (Nat.le_refl _), Nat.sub_self, Nat.zero_div, Nat.zero_add, Nat.one_mul]

theorem afterCycle_eq (interval next : Nat) (running : Option CyclePhase)
    (result : Except Error Unit) :
    (⟨interval, some next, 0, running⟩ : Refresher).afterCycle result =
      ⟨interval, some next, 0, none⟩ := by
  cases result <;> rfl

theorem poll_of_resting (h : w.now < next) (site : Site) (t : Ticket) :
    poll w site t ⟨interval, some next, 0, none⟩ = (w, ⟨interval, some next, 0, none⟩) := by
  unfold poll
  rw [absorb_of_lt h]
  rfl

theorem poll_of_running (h : w.now < next) (site : Site) (t : Ticket) (phase : CyclePhase) :
    poll w site t ⟨interval, some next, 0, some phase⟩ =
      tending interval next (w.pollRefresh site t phase) := by
  unfold poll
  rw [absorb_of_lt h]
  dsimp only
  rcases w.pollRefresh site t phase with ⟨w', phase' | result⟩
  · rfl
  · dsimp only
    rw [afterCycle_eq]
    rfl

/-- At a tick a refresher at rest begins a refresh, and waits for the next tick. -/
theorem poll_of_due (w : World α) (site : Site) (t : Ticket) (interval : Nat) :
    poll w site t ⟨interval, some w.now, 0, none⟩ =
      tending interval (w.now + max interval 1) (w.startRefresh site t) := by
  unfold poll
  rw [absorb_of_due]
  dsimp only
  unfold drain
  rw [if_neg (by simp)]
  dsimp only
  rcases w.startRefresh site t with ⟨w', phase | result⟩
  · rfl
  · dsimp only
    rw [afterCycle_eq]
    rfl

end Refresher

/-! ### Names -/

/-- The ticket of the call that begins after the rounds, where the refresher has the given one. -/
def callTicket (t : Nat) (before : List (List Event)) : Nat :=
  t + before.length + (begun before.flatten).length

/-- The ticket that an activity has where a call takes one at every tick. What begins in the first
of the rounds, the given ticket being the next, keeps its own; what begins in a later one makes way
for the calls since. -/
def renumber (next : Nat) : List (List Event) → Nat → Nat
  | [], x => x
  | during :: rounds, x =>
    if x < next + (begun during).length then x
    else renumber (next + (begun during).length) rounds x + 1

/-- Names under which activities go on where calls begin with the rounds. -/
structure Names (t : Nat) (rounds : List (List Event)) (name : Nat → Nat) : Prop where
  injective : Function.Injective name
  early : ∀ x < t, name x = x
  late : ∀ x, x ≤ name x
  apart : ∀ before during, before ++ [during] <+: rounds →
    ∀ x ≠ t, name x ≠ callTicket t before
  place : ∀ before during, before ++ [during] <+: rounds → ∀ k < (begun during).length,
    name (t + 1 + (begun before.flatten).length + k) = callTicket t before + 1 + k

theorem length_begun_append (before later : List Event) :
    (begun (before ++ later)).length = (begun before).length + (begun later).length := by
  unfold begun
  rw [List.filterMap_append, List.length_append]

theorem length_begun_cons (during : List Event) (rounds : List (List Event)) :
    (begun (during :: rounds).flatten).length =
      (begun during).length + (begun rounds.flatten).length := by
  rw [List.flatten_cons, length_begun_append]

theorem callTicket_concat (t : Nat) (before : List (List Event)) (during : List Event) :
    callTicket t (before ++ [during]) = callTicket t before + 1 + (begun during).length := by
  unfold callTicket
  rw [List.flatten_append, length_begun_append, List.flatten_singleton, List.length_append,
    List.length_singleton]
  omega

theorem le_renumber (next : Nat) (rounds : List (List Event)) (x : Nat) :
    x ≤ renumber next rounds x := by
  induction rounds generalizing next with
  | nil => exact Nat.le_refl x
  | cons during rounds ih =>
    unfold renumber
    split_ifs
    · exact Nat.le_refl x
    · exact Nat.le_succ_of_le (ih _)

theorem renumber_of_lt {next x : Nat} (h : x < next) (rounds : List (List Event)) :
    renumber next rounds x = x := by
  cases rounds with
  | nil => rfl
  | cons during rounds => exact if_pos (Nat.lt_add_right _ h)

theorem strictMono_renumber (next : Nat) (rounds : List (List Event)) :
    StrictMono (renumber next rounds) := by
  induction rounds generalizing next with
  | nil => exact strictMono_id
  | cons during rounds ih =>
    intro x y hxy
    unfold renumber
    split_ifs with hx hy hy
    · exact hxy
    · exact Nat.lt_succ_of_lt (Nat.lt_of_lt_of_le hxy (le_renumber _ _ y))
    · exact absurd (Nat.lt_trans hxy hy) hx
    · exact Nat.succ_lt_succ (ih _ hxy)

/-- What begins in a round makes way for the calls that have begun. -/
theorem renumber_begun (next : Nat) (before : List (List Event)) {during : List Event}
    (later : List (List Event)) {k : Nat} (hk : k < (begun during).length) :
    renumber next (before ++ during :: later) (next + (begun before.flatten).length + k) =
      next + (begun before.flatten).length + k + before.length := by
  induction before generalizing next with
  | nil => exact if_pos (Nat.add_lt_add_left hk next)
  | cons first before ih =>
    rw [length_begun_cons, ← Nat.add_assoc, List.cons_append]
    unfold renumber
    rw [if_neg (by omega), ih, List.length_cons, Nat.add_assoc]

/-- Nothing that begins after the first call takes the ticket of a call. -/
theorem renumber_ne {next x : Nat} (hx : next ≤ x) (before : List (List Event))
    (during : List Event) (later : List (List Event)) :
    renumber next (before ++ during :: later) x + 1 ≠
      next + before.length + (begun before.flatten).length := by
  induction before generalizing next with
  | nil =>
    have hle := le_renumber next ([] ++ during :: later) x
    simp only [List.flatten_nil, begun, List.filterMap_nil, List.length_nil, Nat.add_zero]
    omega
  | cons first before ih =>
    rw [length_begun_cons, List.cons_append, List.length_cons]
    unfold renumber
    split_ifs with hfirst
    · omega
    · have hne := ih (Nat.le_of_not_lt hfirst)
      omega

theorem names_renumber (t : Nat) (rounds : List (List Event)) :
    Names t rounds (renumber (t + 1) rounds) where
  injective := (strictMono_renumber _ _).injective
  early x hx := renumber_of_lt (Nat.lt_succ_of_lt hx) rounds
  late := le_renumber _ rounds
  apart := by
    rintro before during ⟨later, rfl⟩ x hx
    rw [List.append_assoc, List.singleton_append]
    unfold callTicket
    rcases Nat.lt_or_gt_of_ne hx with hlt | hgt
    · rw [renumber_of_lt (Nat.lt_succ_of_lt hlt)]
      omega
    · have hlater : t + 1 ≤ x := hgt
      have hne := renumber_ne hlater before during later
      omega
  place := by
    rintro before during ⟨later, rfl⟩ k hk
    rw [List.append_assoc, List.singleton_append, renumber_begun _ _ _ hk]
    unfold callTicket
    omega

/-! ### Refreshers and calls -/

/-- A refresher between two ticks, with no cycle under way, next to a fleet that has come as far. -/
structure Resting (interval next : Nat) (name : Ticket → Ticket) (t : Ticket) (r s : Fleet α) : Prop
    extends Alongside name t r s where
  activity : r.activity? t = some (.refreshing ⟨interval, some next, 0, none⟩)
  gate : r.world.gate = []
  gate' : s.world.gate = []

/-- A refresher between two ticks next to a fleet on which a call to refresh began at the first of
them, on the given world. -/
inductive Tandem (interval next : Nat) (name : Ticket → Ticket) (t t' : Ticket) (w : World α)
    (r s : Fleet α) : Prop
  | running {phase : CyclePhase} : Alongside name t r s →
      r.activity? t = some (.refreshing ⟨interval, some next, 0, some phase⟩) →
      s.activity? t' = some (.discovering .refresh (phase.handed t')) → s.outcome? t' = none →
      r.world.gate = [t] → s.world.gate = [t'] → phase.Of t → w.Unchanged r.world →
        Tandem interval next name t t' w r s
  | ended {o : Outcome} : Resting interval next name t r s → s.activity? t' = none →
      s.outcome? t' = some o → (∀ e, o = .failed e → w.Unchanged r.world) →
        Tandem interval next name t t' w r s

variable {interval next : Nat} {name : Ticket → Ticket} {t t' : Ticket} {w : World α}
  {r r' s s' : Fleet α}

theorem Tandem.alongside (h : Tandem interval next name t t' w r s) : Alongside name t r s := by
  cases h with
  | running h => exact h
  | ended h => exact h.toAlongside

/-- Where a refresher stands that has taken a step of its cycle, next to a fleet where the call has
taken the same step. -/
theorem tandem_of_abreast {p p' : World α × Progress CyclePhase (Except Error Unit)}
    (habreast : Abreast name t t' p p') (h : Alongside name t r s)
    (hapart : ∀ x ≠ t, name x ≠ t') (hunchanged : p.2 ≠ .finished (.ok ()) → w.Unchanged p.1)
    (hown : Advances t (World.wrapRefresher (Refresher.tending interval next p)) r r')
    (hcall : Advances t' (World.wrapCycle .refresh p') s s') :
    Tandem interval next name t t' w r' s' := by
  have halongside : r'.world.Matches name s'.world → Alongside name t r' s' := fun hworlds ↦
    h.own hown.site hcall.site hworlds hown.others fun x hx ↦ hcall.others _ (hapart x hx)
  cases habreast with
  | @waiting v v' phase hmatches hgate hgate' hphase =>
    have hsame : w.Unchanged v := hunchanged fun hover ↦ by cases hover
    refine .running (halongside ?_) hown.activity hcall.activity hcall.outcome ?_ ?_ hphase ?_
    · rw [hown.world, hcall.world]
      exact hmatches
    · rw [hown.world]
      exact hgate
    · rw [hcall.world]
      exact hgate'
    · rw [hown.world]
      exact hsame
  | @finished v v' result hmatches hgate hgate' =>
    refine .ended ⟨halongside ?_, hown.activity, ?_, ?_⟩ hcall.activity hcall.outcome ?_
    · rw [hown.world, hcall.world]
      exact hmatches
    · rw [hown.world]
      exact hgate
    · rw [hcall.world]
      exact hgate'
    · intro e hfailed
      rw [hown.world]
      cases result with
      | error e => exact hunchanged fun hover ↦ by cases hover
      | ok _ => cases hfailed

variable [Balance α]

/-- At a tick a refresher at rest does what a call to refresh does that begins. -/
theorem Resting.tick (h : Resting interval r.world.now name t r s) (hr : r.Reachable)
    (hs : s.Reachable) (hapart : ∀ x ≠ t, name x ≠ s.nextTicket) :
    Tandem interval (r.world.now + max interval 1) name t s.nextTicket r.world (r.poll t)
      (s.begin .forceRefresh) := by
  have habreast : Abreast name t s.nextTicket (r.world.startRefresh r.site t)
      (s.world.startRefresh s.site s.nextTicket) := by
    obtain ⟨gate, journal, hworld⟩ := h.worlds
    obtain rfl : gate = [] := by
      rw [← h.gate', hworld]
      rfl
    rw [hworld, h.site]
    exact (abreast_startCycle h.gate t s.nextTicket .auto).noted
  have hown := advances_poll h.activity (hr.outcome?_of_activity h.activity)
  dsimp only [World.pollActivity] at hown
  rw [Refresher.poll_of_due] at hown
  refine tandem_of_abreast habreast h.toAlongside hapart ?_ hown
    (advances_begin hs.fresh.1 hs.fresh.2 .forceRefresh)
  exact World.unchanged_noted (r.world.unchanged_startCycle r.site t .auto)

theorem Resting.poll (h : Resting interval next name t r s) (hr : r.Reachable)
    (hearly : r.world.now < next) :
    Resting interval next name t (r.poll t) s ∧ (r.poll t).world = r.world := by
  have hown := advances_poll h.activity (hr.outcome?_of_activity h.activity)
  dsimp only [World.pollActivity] at hown
  rw [Refresher.poll_of_resting hearly] at hown
  have hworld : (r.poll t).world = r.world := hown.world
  have halongside : Alongside name t (r.poll t) s :=
    h.own hown.site rfl (hworld ▸ h.worlds) hown.others fun x hx ↦ ⟨rfl, rfl⟩
  exact ⟨⟨halongside, hown.activity, hworld ▸ h.gate, h.gate'⟩, hworld⟩

theorem Tandem.poll (h : Tandem interval next name t t' w r s) (hr : r.Reachable)
    (hapart : ∀ x ≠ t, name x ≠ t') (hearly : r.world.now < next) :
    Tandem interval next name t t' w (r.poll t) (s.poll t') := by
  cases h with
  | @running phase h hactivity hactivity' hnone hgate hgate' hphase hunchanged =>
    have habreast : Abreast name t t' (r.world.pollRefresh r.site t phase)
        (s.world.pollRefresh s.site t' (phase.handed t')) := by
      obtain ⟨gate, journal, hworld⟩ := h.worlds
      obtain rfl : gate = [t'] := by
        rw [← hgate', hworld]
        rfl
      rw [hworld, h.site]
      exact (abreast_pollCycle hgate .auto hphase).noted
    have hown := advances_poll hactivity (hr.outcome?_of_activity hactivity)
    dsimp only [World.pollActivity] at hown
    rw [Refresher.poll_of_running hearly] at hown
    refine tandem_of_abreast habreast h hapart ?_ hown (advances_poll hactivity' hnone)
    exact fun hover ↦ hunchanged.trans
      (World.unchanged_noted (r.world.unchanged_pollCycle r.site t .auto phase) hover)
  | ended h hended houtcome hunchanged =>
    have hpoll' : s.poll t' = s := by
      unfold Fleet.poll
      rw [hended]
    obtain ⟨hresting, hworld⟩ := h.poll hr hearly
    rw [hpoll']
    exact .ended hresting hended houtcome fun e he ↦ hworld ▸ hunchanged e he

/-- Between two ticks the refresher and the call stay together. -/
theorem Tandem.step (h : Tandem interval next name t t' w r s) (hr : r.Reachable)
    (hname : Function.Injective name) (hapart : ∀ x ≠ t, name x ≠ t') {e : Event}
    (he : e.Abstains r.site) (hearly : e = .poll t → r.world.now < next)
    (hplace : ∀ o, e = .begin o → t ≠ r.nextTicket ∧ name r.nextTicket = s.nextTicket) :
    Tandem interval next name t t' w (r.step e)
      (s.step (e.renamed (Function.update name t t'))) := by
  by_cases hpoll : e = .poll t
  · obtain rfl := hpoll
    show Tandem interval next name t t' w (r.poll t) (s.poll (Function.update name t t' t))
    rw [Function.update_self]
    exact h.poll hr hapart (hearly rfl)
  · have hpassed := h.alongside.step hr hname hapart he hpoll hplace
    cases h with
    | running h hactivity hactivity' hnone hheld hheld' hphase hunchanged =>
      exact .running hpassed.alongside (hpassed.activity.trans hactivity)
        (hpassed.activity'.trans hactivity') (hpassed.outcome'.trans hnone)
        (hpassed.gate.trans hheld) (hpassed.gate'.trans hheld') hphase
        (hunchanged.trans hpassed.unchanged)
    | ended h hended houtcome hunchanged =>
      refine .ended ⟨hpassed.alongside, hpassed.activity.trans h.activity,
        hpassed.gate.trans h.gate, hpassed.gate'.trans h.gate'⟩ (hpassed.activity'.trans hended)
        (hpassed.outcome'.trans houtcome) ?_
      exact fun e he ↦ (hunchanged e he).trans hpassed.unchanged

/-! ### Rounds -/

/-- What happens from one tick until the next is due; until then the activity may be polled. -/
structure Round (site : Site) (t : Ticket) (interval : Nat) (during : List Event) : Prop where
  abstains : ∀ e ∈ during, e.Abstains site
  within : elapsed during ≤ max interval 1
  early : ∀ before, before ++ [.poll t] <+: during → elapsed before < max interval 1

/-- The history of a refresher that is polled at every tick. -/
def ticking (t : Ticket) (rounds : List (List Event)) : List Event :=
  rounds.flatMap fun during ↦ .poll t :: during

/-- The history in which a call to refresh begins at every tick instead, the first of them under the
last ticket given, and all the others have names of their own. -/
def refreshing (t : Ticket) (name : Ticket → Ticket) : Ticket → List (List Event) → List Event
  | _, [] => []
  | c, during :: rounds =>
    .begin .forceRefresh :: during.map (Event.renamed (Function.update name t c)) ++
      refreshing t name (c + 1 + (begun during).length) rounds

theorem ticking_concat (t : Ticket) (rounds : List (List Event)) (during : List Event) :
    ticking t (rounds ++ [during]) = ticking t rounds ++ .poll t :: during := by
  simp [ticking]

theorem refreshing_concat (t : Ticket) (name : Ticket → Ticket) (c : Ticket)
    (rounds : List (List Event)) (during : List Event) :
    refreshing t name c (rounds ++ [during]) = refreshing t name c rounds ++
      .begin .forceRefresh ::
        during.map (Event.renamed (Function.update name t (callTicket c rounds))) := by
  induction rounds generalizing c with
  | nil => simp [refreshing, callTicket, begun]
  | cons first rest ih =>
    have hplace :
        callTicket (c + 1 + (begun first).length) rest = callTicket c (first :: rest) := by
      unfold callTicket
      rw [length_begun_cons, List.length_cons]
      omega
    rw [List.cons_append]
    unfold refreshing
    rw [ih, hplace, ← List.append_assoc]

theorem begun_renamed (name : Ticket → Ticket) (events : List Event) :
    begun (events.map (Event.renamed name)) = begun events := by
  unfold begun
  rw [List.filterMap_map]
  refine List.filterMap_congr fun e _ ↦ ?_
  cases e <;> rfl

theorem Tandem.after (h : Tandem interval next name t t' w r s) (hr : r.Reachable)
    (hname : Function.Injective name) (hapart : ∀ x ≠ t, name x ≠ t') (ht : t < r.nextTicket)
    {during : List Event} (habstains : ∀ e ∈ during, e.Abstains r.site)
    (hearly : ∀ before, before ++ [.poll t] <+: during → r.world.now + elapsed before < next)
    (hplace : ∀ k < (begun during).length, name (r.nextTicket + k) = s.nextTicket + k) :
    Tandem interval next name t t' w (r.after during)
      (s.after (during.map (Event.renamed (Function.update name t t')))) := by
  induction during using List.reverseRecOn with
  | nil => exact h
  | append_singleton before e ih =>
    have hbefore : before <+: before ++ [e] := List.prefix_append _ _
    have hlength := length_begun_append before [e]
    have htogether := ih (fun x hx ↦ habstains x (List.mem_append_left _ hx))
      (fun earlier hearlier ↦ hearly earlier (hearlier.trans hbefore))
      fun k hk ↦ hplace k (Nat.lt_of_lt_of_le hk (hlength ▸ Nat.le_add_right _ _))
    have hsite := (r.site_after before).1
    have hnext := (r.site_after before).2
    rw [List.map_append, List.map_singleton, after_concat, after_concat]
    refine htogether.step (hr.after before) hname hapart ?_ ?_ ?_
    · rw [hsite]
      exact habstains e (by simp)
    · rintro rfl
      rw [now_after]
      exact hearly before (List.prefix_refl _)
    · rintro o rfl
      have hone : (begun [Event.begin o]).length = 1 := rfl
      rw [hnext, (s.site_after _).2, begun_renamed]
      exact ⟨Nat.ne_of_lt (Nat.lt_add_right _ ht), hplace _ (by omega)⟩

/-- From a tick until the next the refresher and the call that begins at the tick are together. -/
theorem Resting.round (h : Resting interval r.world.now name t r s) (hr : r.Reachable)
    (hs : s.Reachable) (hname : Function.Injective name) (hapart : ∀ x ≠ t, name x ≠ s.nextTicket)
    (ht : t < r.nextTicket) {during : List Event} (hround : Round r.site t interval during)
    (hplace : ∀ k < (begun during).length, name (r.nextTicket + k) = s.nextTicket + 1 + k) :
    Tandem interval (r.world.now + max interval 1) name t s.nextTicket r.world
      (r.after (.poll t :: during))
      (s.after (.begin .forceRefresh ::
        during.map (Event.renamed (Function.update name t s.nextTicket)))) := by
  have htick := h.tick hr hs hapart
  obtain ⟨hsite, hnext⟩ : (r.poll t).site = r.site ∧ (r.poll t).nextTicket = r.nextTicket :=
    r.site_step (.poll t)
  have hnow : (r.poll t).world.now = r.world.now := r.now_step (.poll t)
  refine htick.after (hr.after [.poll t]) hname hapart (hnext ▸ ht) ?_ ?_ ?_
  · rw [hsite]
    exact hround.abstains
  · intro before hbefore
    rw [hnow]
    exact Nat.add_lt_add_left (hround.early before hbefore) _
  · rw [hnext, nextTicket_begin]
    exact hplace

/-! ### Refreshers at work -/

/-- The fleet on which a refresher has begun, after rounds at each of whose ticks it was polled. -/
def tended (f : Fleet α) (interval : Nat) (rounds : List (List Event)) : Fleet α :=
  (f.begin (.refreshEvery interval)).after (ticking f.nextTicket rounds)

/-- The fleet after the same rounds with no refresher and a call to refresh at each of the ticks. -/
def called (f : Fleet α) (name : Ticket → Ticket) (rounds : List (List Event)) : Fleet α :=
  f.after (refreshing f.nextTicket name f.nextTicket rounds)

variable {f : Fleet α} {rounds all : List (List Event)} {during : List Event}

theorem tended_concat (f : Fleet α) (interval : Nat) (rounds : List (List Event))
    (during : List Event) : f.tended interval (rounds ++ [during]) =
      (f.tended interval rounds).after (.poll f.nextTicket :: during) := by
  unfold tended
  rw [ticking_concat, after_append]

theorem called_concat (f : Fleet α) (name : Ticket → Ticket) (rounds : List (List Event))
    (during : List Event) : f.called name (rounds ++ [during]) =
      (f.called name rounds).after (.begin .forceRefresh :: during.map
        (Event.renamed (Function.update name f.nextTicket (callTicket f.nextTicket rounds)))) := by
  unfold called
  rw [refreshing_concat, after_append]

/-- Rounds that last until the next tick, before which the cycle that began at their own is over. -/
structure Paced (f : Fleet α) (interval : Nat) (rounds : List (List Event)) : Prop where
  round : ∀ during ∈ rounds, Round f.site f.nextTicket interval during
  full : ∀ during ∈ rounds, elapsed during = max interval 1
  rested : ∀ before, before <+: rounds → ∀ x,
    (f.tended interval before).activity? f.nextTicket = some (.refreshing x) → x.running = none

theorem Paced.of_prefix {before : List (List Event)} (h : Paced f interval rounds)
    (hbefore : before <+: rounds) : Paced f interval before where
  round during hd := h.round during (hbefore.subset hd)
  full during hd := h.full during (hbefore.subset hd)
  rested earlier hearlier := h.rested earlier (hearlier.trans hbefore)

/-- What holds when a tick is due. -/
structure Due (f : Fleet α) (interval : Nat) (name : Ticket → Ticket) (rounds : List (List Event)) :
    Prop where
  now : (f.tended interval rounds).world.now = f.world.now + rounds.length * max interval 1
  resting : Resting interval (f.world.now + rounds.length * max interval 1) name f.nextTicket
    (f.tended interval rounds) (f.called name rounds)
  site : (f.tended interval rounds).site = f.site
  ticket : (f.tended interval rounds).nextTicket =
    f.nextTicket + 1 + (begun rounds.flatten).length
  ticket' : (f.called name rounds).nextTicket = callTicket f.nextTicket rounds
  ended : ∀ before during, before ++ [during] <+: rounds →
    ∃ o, (f.called name rounds).outcome? (callTicket f.nextTicket before) = some o

/-! ### The beginning -/

/-- Before the first tick the refresher has done nothing. -/
theorem due_nil (hf : f.Reachable) (hquiet : ∀ e ∈ f.activities, e.2.cycles f.site = [])
    (hnames : Names f.nextTicket all name) (interval : Nat) : Due f interval name [] := by
  have hbegun := advances_begin hf.fresh.1 hf.fresh.2 (.refreshEvery interval)
  have hworld : (f.tended interval []).world = f.world := hbegun.world
  have hsite : (f.tended interval []).site = f.site := hbegun.site
  -- Tickets before the refresher's keep their names; of later ones nothing is known on either side.
  have hothers : ∀ x ≠ f.nextTicket, f.activity? (name x) = f.activity? x ∧
      f.outcome? (name x) = f.outcome? x := by
    intro x hx
    rcases Nat.lt_or_gt_of_ne hx with hlt | hgt
    · rw [hnames.early x hlt]
      exact ⟨rfl, rfl⟩
    · obtain ⟨hactivity, houtcome⟩ := hf.none_of_le (Nat.le_of_lt hgt)
      obtain ⟨hactivity', houtcome'⟩ :=
        hf.none_of_le (Nat.le_trans (Nat.le_of_lt hgt) (hnames.late x))
      exact ⟨hactivity'.trans hactivity.symm, houtcome'.trans houtcome.symm⟩
  have hgate := hf.gate_of_quiet hquiet
  have hzero : f.world.now + ([] : List (List Event)).length * max interval 1 = f.world.now := by
    rw [List.length_nil, Nat.zero_mul, Nat.add_zero]
  have hmatches : (f.tended interval []).world.Matches name f.world := by
    rw [hworld]
    exact hf.queues.matching hnames.early
  have halongside : Alongside name f.nextTicket (f.tended interval []) f := by
    refine ⟨hsite.symm, hmatches, fun x hx ↦ ?_, fun x hx ↦ ?_, fun x hx a ha ↦ ?_⟩
    · exact (hothers x hx).1.trans (hbegun.others x hx).1.symm
    · exact (hothers x hx).2.trans (hbegun.others x hx).2.symm
    · rw [hsite]
      exact hquiet _ (mem_of_activity? ((hbegun.others x hx).1.symm.trans ha))
  refine ⟨(congrArg World.now hworld).trans hzero.symm,
    ⟨halongside, ?_, hworld ▸ hgate, hgate⟩, hsite,
    f.nextTicket_begin (.refreshEvery interval), rfl, ?_⟩
  · rw [hzero]
    exact hbegun.activity
  · intro before during hbefore
    simp at hbefore

section

variable (hf : f.Reachable) (hnames : Names f.nextTicket all name)

include hf hnames

theorem Due.round (h : Due f interval name rounds) (hall : rounds ++ [during] <+: all)
    (hround : Round f.site f.nextTicket interval during) :
    Tandem interval (f.world.now + (rounds.length + 1) * max interval 1) name f.nextTicket
      (callTicket f.nextTicket rounds) (f.tended interval rounds).world
      (f.tended interval (rounds ++ [during])) (f.called name (rounds ++ [during])) := by
  have hresting := h.resting
  have hr : (f.tended interval rounds).Reachable :=
    hf.after (.begin (.refreshEvery interval) :: ticking f.nextTicket rounds)
  rw [← h.now] at hresting
  have htogether := hresting.round hr (hf.after _) hnames.injective
    (h.ticket'.symm ▸ hnames.apart rounds during hall) (by
      rw [h.ticket]
      exact Nat.lt_of_lt_of_le (Nat.lt_succ_self _) (Nat.le_add_right _ _))
    (h.site.symm ▸ hround) (by rw [h.ticket, h.ticket']; exact hnames.place rounds during hall)
  rw [h.now, h.ticket'] at htogether
  rw [tended_concat, called_concat, Nat.succ_mul, ← Nat.add_assoc]
  exact htogether

theorem Due.concat (h : Due f interval name rounds) (hall : rounds ++ [during] <+: all)
    (hpaced : Paced f interval (rounds ++ [during])) :
    Due f interval name (rounds ++ [during]) := by
  have hround := hpaced.round during (by simp)
  have hlength : (rounds ++ [during]).length = rounds.length + 1 := by simp
  have hnow : (f.tended interval (rounds ++ [during])).world.now =
      f.world.now + (rounds.length + 1) * max interval 1 := by
    have hfull : elapsed (.poll f.nextTicket :: during) = max interval 1 :=
      (Nat.zero_add _).trans (hpaced.full during (by simp))
    rw [tended_concat, now_after, h.now, hfull, Nat.succ_mul, Nat.add_assoc]
  have hsite : (f.tended interval (rounds ++ [during])).site = f.site := by
    rw [tended_concat, (site_after _ _).1, h.site]
  have hticket : (f.tended interval (rounds ++ [during])).nextTicket =
      f.nextTicket + 1 + (begun (rounds ++ [during]).flatten).length := by
    have hbegun : begun (.poll f.nextTicket :: during) = begun during := rfl
    rw [tended_concat, (site_after _ _).2, h.ticket, hbegun, List.flatten_append,
      length_begun_append, List.flatten_singleton, Nat.add_assoc]
  have hticket' : (f.called name (rounds ++ [during])).nextTicket =
      callTicket f.nextTicket (rounds ++ [during]) := by
    have hbegun := length_begun_append [.begin .forceRefresh] (during.map
      (Event.renamed (Function.update name f.nextTicket (callTicket f.nextTicket rounds))))
    rw [begun_renamed] at hbegun
    rw [called_concat, (site_after _ _).2, h.ticket', callTicket_concat, Nat.add_assoc]
    exact congrArg (callTicket f.nextTicket rounds + ·) hbegun
  cases h.round hf hnames hall hround with
  | running _ hactivity =>
    -- Such a round would end with its cycle still under way.
    have hrunning := hpaced.rested _ (List.prefix_refl _) _ hactivity
    cases hrunning
  | @ended o hresting _ houtcome =>
    refine ⟨hlength ▸ hnow, hlength ▸ hresting, hsite, hticket, hticket', ?_⟩
    intro before last hbefore
    rcases List.prefix_concat_iff.mp hbefore with hsame | hearlier
    · obtain ⟨rfl, -⟩ := List.append_inj' hsame rfl
      exact ⟨o, houtcome⟩
    · obtain ⟨o', ho'⟩ := h.ended before last hearlier
      exact ⟨o', called_concat f name rounds during ▸ outcome?_after_of_some ho' _⟩

/-- Every tick finds the refresher at rest and the calls at the earlier ticks over. -/
theorem Paced.due (hquiet : ∀ e ∈ f.activities, e.2.cycles f.site = [])
    (h : Paced f interval rounds) (hall : rounds <+: all) : Due f interval name rounds := by
  -- From the last round back: a round begins where the rounds before it have left both fleets.
  induction rounds using List.reverseRecOn with
  | nil => exact due_nil hf hquiet hnames interval
  | append_singleton rounds during ih =>
    have hbefore : rounds <+: rounds ++ [during] := List.prefix_append _ _
    exact (ih (h.of_prefix hbefore) (hbefore.trans hall)).concat hf hnames hall h

end

/-- What a refresher is to calls that refresh at the same moments, when a round is under way and all
else has other names next to the calls. -/
structure Refines (f : Fleet α) (interval : Nat) (name : Ticket → Ticket)
    (rounds : List (List Event)) (during : List Event) : Prop where
  /-- No two share a name, and those who were there before have kept theirs. -/
  names : Function.Injective name ∧ ∀ x < f.nextTicket, name x = x
  /-- Everything is as the calls make it, but for names, gate and journal. -/
  worlds : (f.tended interval (rounds ++ [during])).world.Matches name
    (f.called name (rounds ++ [during])).world
  /-- All the others come to the same. -/
  others : ∀ x ≠ f.nextTicket,
    (f.called name (rounds ++ [during])).activity? (name x) =
        (f.tended interval (rounds ++ [during])).activity? x ∧
      (f.called name (rounds ++ [during])).outcome? (name x) =
        (f.tended interval (rounds ++ [during])).outcome? x
  /-- Each call begins at its tick, and after the end of the ones before. -/
  calls : ∀ before, before <+: rounds →
    (f.called name before).world.now = f.world.now + before.length * max interval 1 ∧
      (f.called name before).nextTicket = callTicket f.nextTicket before ∧
      ∀ earlier last, earlier ++ [last] <+: before →
        ∃ o, (f.called name before).outcome? (callTicket f.nextTicket earlier) = some o
  /-- Whatever has come of the cycles so far, the refresher is about to begin the next one. -/
  alive : ∃ phase, (f.tended interval (rounds ++ [during])).activity? f.nextTicket =
      some (.refreshing
        ⟨interval, some (f.world.now + (rounds.length + 1) * max interval 1), 0, phase⟩) ∧
    (phase = none ↔ ∃ o, (f.called name (rounds ++ [during])).outcome?
      (callTicket f.nextTicket rounds) = some o)
  /-- A cycle that fails leaves what the tick found. -/
  failed : ∀ e, (f.called name (rounds ++ [during])).outcome? (callTicket f.nextTicket rounds) =
      some (.failed e) →
    (f.tended interval rounds).world.Unchanged (f.tended interval (rounds ++ [during])).world

/-- A refresher does what calls to refresh do that begin at its ticks, one after the other. -/
theorem refresher_refines (hf : f.Reachable)
    (hquiet : ∀ e ∈ f.activities, e.2.cycles f.site = []) (hpaced : Paced f interval rounds)
    (hround : Round f.site f.nextTicket interval during) :
    Refines f interval (renumber (f.nextTicket + 1) (rounds ++ [during])) rounds during := by
  have hnames := names_renumber f.nextTicket (rounds ++ [during])
  have hall : rounds <+: rounds ++ [during] := List.prefix_append _ _
  have hdue := hpaced.due hf hnames hquiet hall
  have htogether := hdue.round hf hnames (List.prefix_refl _) hround
  refine ⟨⟨hnames.injective, hnames.early⟩, htogether.alongside.worlds, ?_, ?_, ?_, ?_⟩
  · exact fun x hx ↦ ⟨htogether.alongside.activities x hx, htogether.alongside.outcomes x hx⟩
  · intro before hbefore
    have hearlier := (hpaced.of_prefix hbefore).due hf hnames hquiet (hbefore.trans hall)
    exact ⟨hearlier.resting.worlds.now.trans hearlier.now, hearlier.ticket', hearlier.ended⟩
  · cases htogether with
    | running _ hactivity _ hnone => exact ⟨_, hactivity, by simp [hnone]⟩
    | ended hresting _ houtcome => exact ⟨none, hresting.activity, by simp [houtcome]⟩
  · intro e hfailed
    cases htogether with
    | running _ _ _ hnone =>
      rw [hnone] at hfailed
      cases hfailed
    | ended _ _ houtcome hunchanged =>
      exact hunchanged e (Option.some.inj (houtcome.symm.trans hfailed))

/-- The course of a cycle that succeeds, while somebody asks for the scale sets. -/
def smooth : List Event :=
  [.begin (.inquire .scaleSets), .elapse 10, .poll 0, .poll 1, .elapse 10, .poll 0, .elapse 30]

/-- The course of a cycle that comes too late to hear about members. -/
def rough : List Event :=
  [.begin (.inquire .scaleSets), .elapse 10, .poll 0, .poll 2,
    .line ⟨fun _ q ↦ match q with
      | .members _ => some (.error (.unavailable "gone"))
      | _ => none, fun _ ↦ 0⟩,
    .elapse 10, .poll 0, .elapse 30]

theorem refresher_refines_through_rough :
    smallFleet.Reachable ∧ Paced smallFleet 50 [smooth, rough] ∧
      Round smallFleet.site smallFleet.nextTicket 50 smooth ∧
      (∃ e, (smallFleet.called (renumber 1 [smooth, rough, smooth]) [smooth, rough]).outcome?
        (callTicket 0 [smooth]) = some (.failed e)) ∧
      Refines smallFleet 50 (renumber 1 [smooth, rough, smooth]) [smooth, rough] smooth := by
  have hreachable : smallFleet.Reachable :=
    ⟨smallSite, .account smallAccount, .empty, none, [], rfl⟩
  have hearly : ∀ during : List Event, (∀ n < during.length, elapsed (during.take n) < 50) →
      ∀ before e, before ++ [e] <+: during → elapsed before < 50 := by
    rintro during hduring before e ⟨later, rfl⟩
    have hbefore := hduring before.length (by simp)
    rw [List.append_assoc, List.take_left'] at hbefore
    · exact hbefore
    · rfl
  have hsmooth : Round smallFleet.site smallFleet.nextTicket 50 smooth := by
    refine ⟨?_, by decide, fun before ↦ hearly smooth (by decide) before _⟩
    simp [smooth, Event.Abstains, Operation.cycles]
  have hrough : Round smallFleet.site smallFleet.nextTicket 50 rough := by
    refine ⟨?_, by decide, fun before ↦ hearly rough (by decide) before _⟩
    simp [rough, Event.Abstains, Operation.cycles]
  have hpaced : Paced smallFleet 50 [smooth, rough] := by
    refine ⟨by simp [hsmooth, hrough], by decide, ?_⟩
    have hover : ∀ n ≤ 2, ((smallFleet.tended 50 ([smooth, rough].take n)).activity?
        smallFleet.nextTicket).all (fun a ↦ (a.underway? smallSite).isNone) = true := by
      decide +kernel
    intro before hbefore x hx
    have hat := hover before.length hbefore.length_le
    rw [← List.prefix_iff_eq_take.mp hbefore, hx] at hat
    exact Option.map_eq_none_iff.mp (Option.isNone_iff_eq_none.mp hat)
  have hfails : ((smallFleet.called (renumber 1 [smooth, rough, smooth]) [smooth, rough]).outcome?
      (callTicket 0 [smooth])).any Outcome.isFailed = true := by
    decide +kernel
  refine ⟨hreachable, hpaced, hsmooth, ?_,
    refresher_refines hreachable (by decide) hpaced hsmooth⟩
  obtain ⟨o, ho, hfailed⟩ := (Option.any_eq_true _ _).mp hfails
  cases o with
  | failed e => exact ⟨e, ho⟩
  | _ => cases hfailed

end NodeFleet.Fleet
