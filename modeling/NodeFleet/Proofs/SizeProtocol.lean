import NodeFleet.Proofs.Calls
import NodeFleet.Proofs.SizeCells
/-!
The size of a group over a history. However many requests for it overlap and whatever else goes on,
the calls for the size come one after the other, each not before the last answer is as old as the
period of the group; a request gets the answer to its own call or a recent one, and the cell of the
group holds the last answer, which a failed call leaves as it is.

A group is seen as a single handle: all requests that name its serial number name the very group.
-/

set_option autoImplicit false
set_option relaxedAutoImplicit false

namespace NodeFleet.Fleet

open NodeFleet.Discovery NodeFleet.Quota

variable {α : Type}

/-! ### Activities that ask for a size -/

/-- The group whose size the operation asks for. -/
def Operation.sized? : Operation → Option NodeGroup
  | size g => some g
  | _ => none

def Activity.sized? : Activity → Option NodeGroup
  | sizing g _ => some g
  | _ => none

section

variable {site : Site} {t : Ticket} {w : World α}

theorem World.wrap_world {σ ρ : Type} (state : σ → Activity) (result : ρ → Outcome)
    (r : World α × Progress σ ρ) : (World.wrap state result r).1 = r.1 := by
  rcases r with ⟨w', s | x⟩
  · rfl
  · rfl

theorem state_of_wrap {σ ρ : Type} {state : σ → Activity} {result : ρ → Outcome}
    {r : World α × Progress σ ρ} {a : Activity} (h : (World.wrap state result r).2 = .waiting a) :
    ∃ s, a = state s := by
  rcases r with ⟨w', s | x⟩
  · exact ⟨s, (Progress.waiting.inj h).symm⟩
  · cases h

theorem sized?_resolveWith {wanted : Wanted}
    {r : World α × Progress Inquiry (Except Error (List ScaleSet))} {a : Activity}
    (h : (World.resolveWith wanted r).2 = .waiting a) : a.sized? = none := by
  rcases r with ⟨w', i | listed⟩
  · obtain rfl := Progress.waiting.inj h
    rfl
  · cases h

theorem sized?_wrapRefresher {r : World α × Refresher} {a : Activity}
    (h : (World.wrapRefresher r).2 = .waiting a) : a.sized? = none := by
  unfold World.wrapRefresher at h
  split_ifs at h
  obtain rfl := Progress.waiting.inj h
  rfl

/-- A request waits for its answer just when its poll does. -/
theorem waiting_of_wrapSize {g : NodeGroup} (r : World α × Progress SizePhase (Except Error Nat))
    (i : Inquiry) :
    (match (World.wrapSize g r).2 with
      | .waiting a => some a
      | .finished _ => none) = some (Activity.sizing g (.asking i)) ↔
      r.2 = .waiting (.asking i) := by
  rcases r with ⟨w', phase | result⟩
  · constructor
    · rintro ⟨⟩
      rfl
    · rintro ⟨⟩
      rfl
  · exact iff_of_false (fun h ↦ by cases h) fun h ↦ by cases h

variable [Balance α]

theorem sized?_afterCycle {errand : Errand} {r : World α × Progress CyclePhase (Except Error Unit)}
    {a : Activity} (h : (World.afterCycle site t errand r).2 = .waiting a) : a.sized? = none := by
  have hwrapped : ∀ {errand : Errand} {r : World α × Progress CyclePhase (Except Error Unit)},
      (World.wrapCycle errand r).2 = .waiting a → a.sized? = none := by
    intro errand r hr
    obtain ⟨phase, rfl⟩ := state_of_wrap hr
    rfl
  cases errand with
  | fetch cycle => exact hwrapped h
  | refresh => exact hwrapped h
  | create =>
    rcases r with ⟨w', phase | e | ⟨⟩⟩
    · exact hwrapped h
    · exact hwrapped h
    · exact hwrapped h

theorem sized?_pollActivity {a a' : Activity} (h : (w.pollActivity site t a).2 = .waiting a') :
    a'.sized? = a.sized? := by
  cases a with
  | pausing wake =>
    dsimp only [World.pollActivity] at h
    split_ifs at h
    obtain rfl := Progress.waiting.inj h
    rfl
  | calling rg q phase =>
    obtain ⟨phase', rfl⟩ := state_of_wrap h
    rfl
  | inquiring q i =>
    obtain ⟨i', rfl⟩ := state_of_wrap h
    rfl
  | resolving wanted i => exact sized?_resolveWith h
  | sizing g phase =>
    obtain ⟨phase', rfl⟩ := state_of_wrap h
    rfl
  | discovering errand phase => exact sized?_afterCycle h
  | refreshing r => exact sized?_wrapRefresher h

theorem sized?_startOperation {o : Operation} {a : Activity}
    (h : (w.startOperation site t o).2 = .waiting a) : a.sized? = o.sized? := by
  have hresolving : ∀ wanted, (w.startResolving site wanted).2 = .waiting a → a.sized? = none := by
    intro wanted hw
    unfold World.startResolving at hw
    split_ifs at hw
    exact sized?_resolveWith hw
  cases o with
  | pause millis =>
    have hpolled : (w.pollActivity site t (.pausing (w.now + millis))).2 = .waiting a := h
    exact sized?_pollActivity hpolled
  | call rg q =>
    obtain ⟨phase', rfl⟩ := state_of_wrap h
    rfl
  | inquire q =>
    obtain ⟨i', rfl⟩ := state_of_wrap h
    rfl
  | resolveExplicit specs => exact hresolving _ h
  | resolveSelectors selectors => exact hresolving _ h
  | preview labels =>
    dsimp only [World.startOperation] at h
    cases hparse : Selector.parseAll labels with
    | error e =>
      rw [hparse] at h
      cases h
    | ok selectors =>
      rw [hparse] at h
      exact hresolving _ h
  | size g =>
    obtain ⟨phase', rfl⟩ := state_of_wrap h
    rfl
  | fetchExplicit texts =>
    dsimp only [World.startOperation] at h
    cases hparse : ExplicitSpec.parseAll texts with
    | error e =>
      rw [hparse] at h
      cases h
    | ok specs =>
      rw [hparse] at h
      exact sized?_afterCycle h
  | refresh =>
    dsimp only [World.startOperation] at h
    split_ifs at h
    exact sized?_afterCycle h
  | fetchAuto => exact sized?_afterCycle h
  | forceRefresh => exact sized?_afterCycle h
  | create => exact sized?_afterCycle h
  | refreshEvery millis =>
    obtain rfl := Progress.waiting.inj h
    rfl

end

/-! ### Activities and their operations -/

variable {f : Fleet α} {t : Ticket}

/-- Whether each activity asks for a size just as the operation of its ticket does. -/
def Sized (events : List Event) (f : Fleet α) : Prop :=
  ∀ t a, f.activity? t = some a → a.sized? = (begun events)[t]?.bind Operation.sized?

theorem Sized.settle {events : List Event} (h : f.Sized events) {a : Activity}
    (ha : f.activity? t = some a) {r : Step α}
    (hr : ∀ a', r.2 = .waiting a' → a'.sized? = a.sized?) : (f.settle t r).Sized events := by
  intro t' a' ha'
  rw [activity?_settle ha] at ha'
  split_ifs at ha' with ht
  · rw [ht, ← h t a ha]
    split at ha'
    · rename_i hwaiting
      obtain rfl := Option.some.inj ha'
      exact hr _ hwaiting
    · cases ha'
  · exact h t' a' ha'

variable [Balance α]

theorem Sized.step {events : List Event} (h : f.Sized events) (ht : f.Tracked events)
    (hnext : f.nextTicket = (begun events).length) (e : Event) :
    (f.step e).Sized (events ++ [e]) := by
  have hlater : f.Sized (events ++ [e]) := by
    intro t a ha
    have hknown := ht.known _ (mem_of_activity? ha)
    rw [begun_of_lt (hnext ▸ hknown)]
    exact h t a ha
  cases e with
  | begin o =>
    intro t a ha
    change (f.begin o).activity? t = some a at ha
    rw [activity?_begin] at ha
    rcases Option.or_eq_some_iff.mp ha with hold | ⟨-, hnew⟩
    · exact hlater t a hold
    · split at hnew
      · rename_i a' hwaiting
        split_ifs at hnew with hticket
        obtain rfl := Option.some.inj hnew
        rw [← hticket, hnext, begun_of_begin events o []]
        exact sized?_startOperation hwaiting
      · cases hnew
  | poll t =>
    show (f.poll t).Sized _
    unfold Fleet.poll
    cases hactivity : f.activity? t with
    | none => exact hlater
    | some a => exact hlater.settle hactivity fun a' ha' ↦ sized?_pollActivity ha'
  | stop t =>
    show (f.stop t).Sized _
    unfold Fleet.stop
    split
    · rename_i r hactivity
      exact hlater.settle hactivity fun a' ha' ↦ sized?_wrapRefresher ha'
    · exact hlater
  | _ => exact hlater

/-! ### Deeds of events -/

/-- What an event does about the size of a group. -/
def sizeDeeds (f : Fleet α) (g : NodeGroup) : Event → List SizeDeed
  | .begin (.size g') =>
    if g' = g then
      (f.world.joinLine g f.nextTicket).sizeDeeds g f.nextTicket .queued
        (f.world.startSize f.site g f.nextTicket).2
    else []
  | .poll t =>
    match f.activity? t with
    | some (.sizing g' phase) =>
      if g' = g then f.world.sizeDeeds g t phase (f.world.pollSize f.site g t phase).2 else []
    | _ => []
  | _ => []

theorem sizeDeeds_begin (f : Fleet α) (g : NodeGroup) :
    f.sizeDeeds g (.begin (.size g)) =
      (f.world.joinLine g f.nextTicket).sizeDeeds g f.nextTicket .queued
        (f.world.startSize f.site g f.nextTicket).2 :=
  if_pos rfl

theorem sizeDeeds_poll {g : NodeGroup} {phase : SizePhase}
    (h : f.activity? t = some (.sizing g phase)) :
    f.sizeDeeds g (.poll t) =
      f.world.sizeDeeds g t phase (f.world.pollSize f.site g t phase).2 := by
  dsimp only [sizeDeeds]
  rw [h]
  exact if_pos rfl

/-- What a history does about the size of a group, in its order. -/
def sizeLedger (f : Fleet α) (g : NodeGroup) : List Event → List SizeDeed
  | [] => []
  | e :: rest => f.sizeDeeds g e ++ (f.step e).sizeLedger g rest

theorem sizeLedger_append (f : Fleet α) (g : NodeGroup) (before later : List Event) :
    f.sizeLedger g (before ++ later) =
      f.sizeLedger g before ++ (f.after before).sizeLedger g later := by
  induction before generalizing f with
  | nil => rfl
  | cons x rest ih =>
    show f.sizeDeeds g x ++ (f.step x).sizeLedger g (rest ++ later) = _
    rw [ih, ← List.append_assoc]
    rfl

theorem sizeLedger_concat (f : Fleet α) (g : NodeGroup) (events : List Event) (e : Event) :
    f.sizeLedger g (events ++ [e]) = f.sizeLedger g events ++ (f.after events).sizeDeeds g e :=
  (f.sizeLedger_append g events [e]).trans (congrArg (_ ++ ·) (List.append_nil _))

/-- How a fleet goes with the state of a size. -/
structure Sizing (g : NodeGroup) (s : SizeState) (f : Fleet α) : Prop where
  written : World.Written g s f.world
  busy : ∀ t, s.busy = some t ↔ ∃ i, f.activity? t = some (.sizing g (.asking i))

variable {g : NodeGroup} {s : SizeState} {f' : Fleet α}

/-- What an event leaves alone that does not concern the size of the group. -/
structure Untouched (g : NodeGroup) (f f' : Fleet α) : Prop where
  cell : f'.world.cell g = f.world.cell g
  now : f.world.now ≤ f'.world.now
  activity : ∀ t phase, f'.activity? t = some (.sizing g phase) ↔
    f.activity? t = some (.sizing g phase)

omit [Balance α] in
theorem Sizing.of_untouched (h : f.Sizing g s) (hf : f.Untouched g f') : f'.Sizing g s :=
  ⟨h.written.of_cell hf.cell hf.now, fun t ↦ (h.busy t).trans
    (exists_congr fun i ↦ (hf.activity t (.asking i)).symm)⟩

omit [Balance α] in
theorem untouched_of_steady {w : World α} (h : World.Steady g f.world w) :
    f.Untouched g { f with world := w } :=
  ⟨h.cell, Nat.le_of_eq h.now.symm, fun _ _ ↦ Iff.rfl⟩

omit [Balance α] in
/-- A step of a request for the size of the group. -/
theorem Sizing.serve (h : f.Sizing g s) {w : World α}
    {r : World α × Progress SizePhase (Except Error Nat)} {deeds : List SizeDeed}
    (hserved : World.Served g t s w r deeds) (hworld : f'.world = r.1)
    (hothers : ∀ t', t' ≠ t → f'.activity? t' = f.activity? t')
    (hown : ∀ i, f'.activity? t = some (.sizing g (.asking i)) ↔ r.2 = .waiting (.asking i)) :
    f'.Sizing g (s.afterAll deeds) := by
  refine ⟨hworld ▸ hserved.written, fun t' ↦ ?_⟩
  by_cases ht : t' = t
  · rw [ht]
    exact hserved.own.trans (exists_congr fun i ↦ (hown i).symm)
  · rw [hserved.others t' ht, h.busy, hothers t' ht]

/-- Whether all requests that name the serial number of the group name the group. -/
structure Alone (g : NodeGroup) (f : Fleet α) (e : Event) : Prop where
  waiting : ∀ t g' phase, f.activity? t = some (.sizing g' phase) → g'.serial = g.serial → g' = g
  beginning : ∀ g', e = .begin (.size g') → g'.serial = g.serial → g' = g

/-- The events that concern the size of the group. -/
inductive Concerns (f : Fleet α) (g : NodeGroup) : Event → Prop
  | begin : Concerns f g (.begin (.size g))
  | poll {t : Ticket} {phase : SizePhase} (h : f.activity? t = some (.sizing g phase)) :
      Concerns f g (.poll t)

theorem untouched_begin (hfresh : f.activity? f.nextTicket = none) {o : Operation}
    (he : f.Alone g (.begin o)) (ho : o ≠ .size g) : f.Untouched g (f.begin o) := by
  have hsteady : World.Steady g f.world (f.begin o).world := by
    refine (World.borne_steady g).begin f fun g' hg' ↦ ?_
    have hne : g'.serial ≠ g.serial := fun hserial ↦
      ho (hg'.trans (congrArg Operation.size (he.beginning g' (congrArg Event.begin hg') hserial)))
    exact (World.borne_steady g).startSize f.world f.site f.nextTicket fun w f' ↦
      w.steady_changeCell hne f'
  refine ⟨hsteady.cell, Nat.le_of_eq hsteady.now.symm, fun t' phase ↦ ?_⟩
  by_cases ht' : t' = f.nextTicket
  · rw [ht', hfresh, activity?_begin_self hfresh]
    refine iff_of_false ?_ fun hi ↦ by cases hi
    split
    · rename_i a hwaiting
      rintro ⟨⟩
      have hsized := sized?_startOperation hwaiting
      cases o with
      | size g' => exact ho (congrArg Operation.size (Option.some.inj hsized.symm))
      | _ => cases hsized
    · exact fun hi ↦ by cases hi
  · rw [activity?_begin_of_ne f o ht']

theorem untouched_poll {t : Ticket} (he : f.Alone g (.poll t))
    (hother : ∀ phase, f.activity? t ≠ some (.sizing g phase)) : f.Untouched g (f.poll t) := by
  have hsteady : World.Steady g f.world (f.poll t).world := by
    refine (World.borne_steady g).poll f fun g' phase hg' ↦ ?_
    have hne : g'.serial ≠ g.serial := fun hserial ↦
      hother phase (he.waiting t g' phase hg' hserial ▸ hg')
    exact (World.borne_steady g).pollSize f.world f.site t (fun w f' ↦ w.steady_changeCell hne f')
      phase
  refine ⟨hsteady.cell, Nat.le_of_eq hsteady.now.symm, fun t' phase ↦ ?_⟩
  unfold Fleet.poll
  cases hactivity : f.activity? t with
  | none => rfl
  | some a =>
    dsimp only
    rw [activity?_settle hactivity]
    split_ifs with ht'
    · rw [ht', hactivity]
      refine iff_of_false ?_ fun hi ↦ hother phase (hactivity.trans hi)
      split
      · rename_i a' hwaiting
        rintro ⟨⟩
        have hsized := sized?_pollActivity hwaiting
        cases a with
        | sizing g' phase' =>
          obtain rfl := Option.some.inj hsized
          exact hother phase' hactivity
        | _ => cases hsized
      · exact fun hi ↦ by cases hi
    · rfl

theorem untouched_stop (f : Fleet α) (g : NodeGroup) (t : Ticket) : f.Untouched g (f.stop t) := by
  have hsteady := (World.borne_steady g).stop f t
  refine ⟨hsteady.cell, Nat.le_of_eq hsteady.now.symm, fun t' phase ↦ ?_⟩
  unfold Fleet.stop
  split
  · rename_i r hactivity
    rw [activity?_settle hactivity]
    split_ifs with ht'
    · rw [ht', hactivity]
      refine iff_of_false ?_ fun hi ↦ by cases hi
      split
      · rename_i a' hwaiting
        rintro ⟨⟩
        cases sized?_wrapRefresher hwaiting
      · exact fun hi ↦ by cases hi
    · rfl
  · rfl

omit [Balance α] in
theorem untouched_elapse (f : Fleet α) (g : NodeGroup) (millis : Nat) :
    f.Untouched g (f.elapse millis) :=
  ⟨rfl, Nat.le_add_right _ _, fun _ _ ↦ Iff.rfl⟩

/-- An event that does not concern the size of the group does nothing about it. -/
theorem untouched_step (hfresh : f.activity? f.nextTicket = none) {e : Event} (he : f.Alone g e)
    (hother : ¬ f.Concerns g e) : f.sizeDeeds g e = [] ∧ f.Untouched g (f.step e) := by
  cases e with
  | begin o =>
    have ho : o ≠ .size g := by
      rintro rfl
      exact hother .begin
    refine ⟨?_, untouched_begin hfresh he ho⟩
    cases o with
    | size g' => exact if_neg fun h ↦ ho (congrArg Operation.size h)
    | _ => rfl
  | poll t =>
    have ht : ∀ phase, f.activity? t ≠ some (.sizing g phase) := fun _ h ↦ hother (.poll h)
    refine ⟨?_, untouched_poll he ht⟩
    dsimp only [sizeDeeds]
    split
    · rename_i g' phase hg'
      refine if_neg fun hsame ↦ ?_
      rw [hsame] at hg'
      exact ht phase hg'
    · rfl
  | elapse millis => exact ⟨rfl, f.untouched_elapse g millis⟩
  | stop t => exact ⟨rfl, f.untouched_stop g t⟩
  | account change =>
    refine ⟨rfl, untouched_of_steady ?_⟩
    unfold World.changeAccount
    split <;> exact ⟨rfl, rfl⟩
  | line line => exact ⟨rfl, untouched_of_steady ⟨rfl, rfl⟩⟩
  | files files => exact ⟨rfl, untouched_of_steady ⟨rfl, rfl⟩⟩
  | register c => exact ⟨rfl, untouched_of_steady ((World.borne_steady g).register f.world c)⟩
  | unregister name =>
    exact ⟨rfl, untouched_of_steady ((World.borne_steady g).unregister f.world name)⟩
  | replace cs instances =>
    exact ⟨rfl, untouched_of_steady ((World.borne_steady g).replace f.world cs instances)⟩

theorem Sizing.begin (h : f.Sizing g s) (hfresh : f.activity? f.nextTicket = none) :
    s.Lawful g.sizePeriod (f.sizeDeeds g (.begin (.size g))) ∧
      (f.begin (.size g)).Sizing g (s.afterAll (f.sizeDeeds g (.begin (.size g)))) := by
  have hout : s.busy = some f.nextTicket ↔ ∃ i, SizePhase.queued = .asking i := by
    rw [h.busy, hfresh]
    exact iff_of_false (fun ⟨i, hi⟩ ↦ by cases hi) fun ⟨i, hi⟩ ↦ by cases hi
  have hserved : World.Served g f.nextTicket s (f.world.joinLine g f.nextTicket)
      (f.world.startSize f.site g f.nextTicket)
      ((f.world.joinLine g f.nextTicket).sizeDeeds g f.nextTicket .queued
        (f.world.startSize f.site g f.nextTicket).2) :=
    World.served_pollSize (h.written.joinLine f.nextTicket) hout
  rw [sizeDeeds_begin]
  refine ⟨hserved.lawful, h.serve hserved ?_ ?_ ?_⟩
  · rw [world_begin]
    exact World.wrap_world _ _ _
  · intro t' ht'
    exact activity?_begin_of_ne f _ ht'
  · intro i
    rw [activity?_begin_self hfresh]
    exact waiting_of_wrapSize _ i

theorem Sizing.poll (h : f.Sizing g s) {t : Ticket} {phase : SizePhase}
    (hactivity : f.activity? t = some (.sizing g phase)) :
    s.Lawful g.sizePeriod (f.sizeDeeds g (.poll t)) ∧
      (f.poll t).Sizing g (s.afterAll (f.sizeDeeds g (.poll t))) := by
  have hphase : s.busy = some t ↔ ∃ i, phase = .asking i := by
    rw [h.busy, hactivity]
    exact exists_congr fun i ↦ ⟨fun hi ↦ by cases hi; rfl, fun hi ↦ by rw [hi]⟩
  have hserved : World.Served g t s f.world (f.world.pollSize f.site g t phase) _ :=
    World.served_pollSize h.written hphase
  have hpoll : f.poll t = f.settle t (f.world.pollActivity f.site t (.sizing g phase)) := by
    unfold Fleet.poll
    rw [hactivity]
  rw [sizeDeeds_poll hactivity, hpoll]
  refine ⟨hserved.lawful, h.serve hserved ?_ ?_ ?_⟩
  · rw [world_settle]
    exact World.wrap_world _ _ _
  · intro t' ht'
    rw [activity?_settle hactivity, if_neg ht']
  · intro i
    rw [activity?_settle hactivity, if_pos rfl]
    exact waiting_of_wrapSize _ i

/-- An event keeps to the protocol of the size, and the fleet goes with what it leads to. -/
theorem Sizing.step (h : f.Sizing g s) (hfresh : f.activity? f.nextTicket = none) {e : Event}
    (he : f.Alone g e) :
    s.Lawful g.sizePeriod (f.sizeDeeds g e) ∧
      (f.step e).Sizing g (s.afterAll (f.sizeDeeds g e)) := by
  by_cases hconcerns : f.Concerns g e
  · cases hconcerns with
    | begin => exact h.begin hfresh
    | poll hactivity => exact h.poll hactivity
  · obtain ⟨hdeeds, huntouched⟩ := untouched_step hfresh he hconcerns
    rw [hdeeds]
    exact ⟨trivial, h.of_untouched huntouched⟩

theorem exists_deed_of_begin {n : Nat}
    (h : (f.world.startOperation f.site f.nextTicket (.size g)).2 = .finished (.size n)) :
    ∃ d ∈ f.sizeDeeds g (.begin (.size g)), d = .ended f.nextTicket f.world.now (.ok n) ∨
      d = .recalled f.nextTicket f.world.now n := by
  obtain ⟨result, hfinished, hsize⟩ := World.finished_of_wrapSize h
  cases result with
  | error e => cases hsize
  | ok n' =>
    cases hsize
    rw [sizeDeeds_begin]
    exact World.exists_deed_of_finished hfinished

theorem exists_deed_of_poll {phase : SizePhase} {n : Nat}
    (hactivity : f.activity? t = some (.sizing g phase))
    (h : (f.world.pollActivity f.site t (.sizing g phase)).2 = .finished (.size n)) :
    ∃ d ∈ f.sizeDeeds g (.poll t), d = .ended t f.world.now (.ok n) ∨
      d = .recalled t f.world.now n := by
  obtain ⟨result, hfinished, hsize⟩ := World.finished_of_wrapSize h
  cases result with
  | error e => cases hsize
  | ok n' =>
    cases hsize
    rw [sizeDeeds_poll hactivity]
    exact World.exists_deed_of_finished hfinished

/-- Whether an event carries on a request for the size of the group whose call is not under way. -/
inductive Requests (f : Fleet α) (g : NodeGroup) : Event → Prop
  | begin : Requests f g (.begin (.size g))
  | poll {t : Ticket} (h : f.activity? t = some (.sizing g .queued)) : Requests f g (.poll t)

/-- The client hears of no request that does not start its call. -/
theorem Requests.quiet {e : Event} (he : f.Requests g e)
    (h : ∀ t now, .asked t now ∉ f.sizeDeeds g e) :
    (f.step e).world.cloud = f.world.cloud ∧ (f.step e).world.quotas = f.world.quotas := by
  cases he with
  | begin =>
    rw [sizeDeeds_begin] at h
    have hquiet := World.quiet_pollSize (w := f.world.joinLine g f.nextTicket) (h f.nextTicket)
    have hworld : (f.begin (.size g)).world = (f.world.startSize f.site g f.nextTicket).1 :=
      (world_begin f _).trans (World.wrap_world _ _ _)
    show (f.begin (.size g)).world.cloud = _ ∧ (f.begin (.size g)).world.quotas = _
    rw [hworld]
    exact hquiet
  | @poll t hactivity =>
    rw [sizeDeeds_poll hactivity] at h
    have hquiet := World.quiet_pollSize (h t)
    have hworld : (f.poll t).world = (f.world.pollSize f.site g t .queued).1 := by
      unfold Fleet.poll
      rw [hactivity]
      exact (world_settle f t _).trans (World.wrap_world _ _ _)
    show (f.poll t).world.cloud = _ ∧ (f.poll t).world.quotas = _
    rw [hworld]
    exact hquiet

/-- A size that a call is answered is the capacity in the answer of the client at that moment. -/
theorem answer_of_mem_deeds {e : Event} {now n : Nat} (h : .ended t now (.ok n) ∈ f.sizeDeeds g e) :
    now = f.world.now ∧
      ∃ x, f.world.answer f.site.resourceGroup (.scaleSet g.name) = .ok x ∧ x.capacity = n := by
  cases e with
  | begin o =>
    cases o with
    | size g' =>
      by_cases hsame : g' = g
      · obtain rfl := hsame
        rw [sizeDeeds_begin] at h
        exact World.answer_of_mem_sizeDeeds (w := f.world.joinLine g' f.nextTicket) h
      · have hnone : f.sizeDeeds g (.begin (.size g')) = [] := if_neg hsame
        rw [hnone] at h
        cases h
    | _ => cases h
  | poll t' =>
    dsimp only [sizeDeeds] at h
    split at h
    · split_ifs at h with hsame
      · obtain rfl := hsame
        exact World.answer_of_mem_sizeDeeds h
      · cases h
    · cases h
  | _ => cases h

/-! ### Histories -/

section

variable (site : Site) (cloud : Cloud) (files : Files) (quotas : Option (Quotas α))

theorem sized_after (events : List Event) :
    ((fresh site cloud files quotas).after events).Sized events := by
  induction events using List.reverseRecOn with
  | nil => exact fun t a ha ↦ by cases ha
  | append_singleton before e ih =>
    rw [after_concat]
    refine ih.step (tracked_after site cloud files quotas before) ?_ e
    exact nextTicket_after site cloud files quotas before

/-- In a history whose requests that name the serial number of the group name the very group. -/
theorem alone_after {before : List Event} {e : Event}
    (hg : ∀ g', .begin (.size g') ∈ before ++ [e] → g'.serial = g.serial → g' = g) :
    ((fresh site cloud files quotas).after before).Alone g e := by
  refine ⟨fun t g' phase hactivity ↦ ?_, fun g' he ↦ hg g' (by simp [he])⟩
  have hsized := sized_after site cloud files quotas before t _ hactivity
  obtain ⟨o, ho, hasked⟩ := Option.bind_eq_some_iff.mp hsized.symm
  obtain ⟨x, hx, hoperation⟩ := List.mem_filterMap.mp (List.mem_of_getElem? ho)
  cases o with
  | size g'' =>
    cases x with
    | begin o' =>
      cases hasked
      cases hoperation
      exact hg g' (List.mem_append_left _ hx)
    | _ => cases hoperation
  | _ => cases hasked

/-- A history keeps to the protocol of the size, if requests that name its serial number name
the very group. -/
theorem lawful_after {events : List Event}
    (hg : ∀ g', .begin (.size g') ∈ events → g'.serial = g.serial → g' = g) :
    SizeState.start.Lawful g.sizePeriod ((fresh site cloud files quotas).sizeLedger g events) ∧
      ((fresh site cloud files quotas).after events).Sizing g
        (SizeState.start.afterAll ((fresh site cloud files quotas).sizeLedger g events)) := by
  induction events using List.reverseRecOn with
  | nil =>
    have hcell : (fresh site cloud files quotas).world.cell g = .empty := rfl
    refine ⟨trivial, ⟨?_, ?_, ?_, ?_⟩, fun t ↦ ?_⟩
    · exact congrArg SizeCell.size hcell
    · exact congrArg SizeCell.askedAt hcell
    · exact fun n e h ↦ by cases h
    · exact fun t h ↦ by cases h
    · exact iff_of_false (fun h ↦ by cases h) fun ⟨i, h⟩ ↦ by cases h
  | append_singleton before e ih =>
    obtain ⟨hlawful, hsizing⟩ := ih fun g' hg' ↦ hg g' (List.mem_append_left _ hg')
    have htracked := tracked_after site cloud files quotas before
    have halone := alone_after site cloud files quotas hg
    obtain ⟨hlawful', hsizing'⟩ := hsizing.step htracked.fresh_activity halone
    rw [sizeLedger_concat, after_concat]
    refine ⟨SizeState.lawful_append.mpr ⟨hlawful, hlawful'⟩, ?_⟩
    rw [SizeState.afterAll_append]
    exact hsizing'

/-- A request that has come to a size recalled it, or its own call was answered it. -/
theorem exists_deed_of_outcome {events : List Event} {t : Ticket} {n : Nat}
    (hbegun : (begun events)[t]? = some (.size g))
    (ho : ((fresh site cloud files quotas).after events).outcome? t = some (.size n)) :
    ∃ d ∈ (fresh site cloud files quotas).sizeLedger g events,
      ∃ now, d = .ended t now (.ok n) ∨ d = .recalled t now n := by
  induction events using List.reverseRecOn with
  | nil => cases ho
  | append_singleton before e ih =>
    have htracked := tracked_after site cloud files quotas before
    have hnext := nextTicket_after site cloud files quotas before
    rw [after_concat] at ho
    rw [sizeLedger_concat]
    cases hbefore : ((fresh site cloud files quotas).after before).outcome? t with
    | some o =>
      obtain rfl := Option.some.inj ((outcome?_step_of_some hbefore e).symm.trans ho)
      have hold : t < (begun before).length := by
        obtain ⟨x, hx, -⟩ := Option.map_eq_some_iff.mp hbefore
        have hticket : x.1 = t := by simpa using List.find?_some hx
        rw [← hticket, ← hnext]
        exact htracked.ended x (List.mem_of_find?_eq_some hx)
      rw [begun_of_lt hold] at hbegun
      obtain ⟨d, hd, hreturns⟩ := ih hbegun hbefore
      exact ⟨d, List.mem_append_left _ hd, hreturns⟩
    | none =>
      have hsizing : ∀ a, ((fresh site cloud files quotas).after before).activity? t = some a →
          ∃ phase, a = .sizing g phase := by
        intro a ha
        have hknown := htracked.known _ (mem_of_activity? ha)
        rw [hnext] at hknown
        have hsized := sized_after site cloud files quotas before t a ha
        rw [begun_of_lt hknown] at hbegun
        rw [hbegun] at hsized
        cases a with
        | sizing g' phase =>
          cases hsized
          exact ⟨phase, rfl⟩
        | _ => cases hsized
      rcases outcome?_step hbefore ho with
        ⟨op, rfl, ht, hfinished⟩ | ⟨a, rfl, hactivity, hfinished⟩ | ⟨r, rfl, hactivity⟩
      · obtain rfl : op = .size g := by
          rw [← ht, hnext, begun_of_begin before op []] at hbegun
          exact Option.some.inj hbegun
        obtain rfl := ht
        obtain ⟨d, hd, hreturns⟩ := exists_deed_of_begin hfinished
        exact ⟨d, List.mem_append_right _ hd, _, hreturns⟩
      · obtain ⟨phase, rfl⟩ := hsizing a hactivity
        obtain ⟨d, hd, hreturns⟩ := exists_deed_of_poll hactivity hfinished
        exact ⟨d, List.mem_append_right _ hd, _, hreturns⟩
      · obtain ⟨phase, hphase⟩ := hsizing _ hactivity
        cases hphase

/-- The protocol of the size of a group in a history. -/
structure SizeProtocol (f : Fleet α) (g : NodeGroup) (events : List Event) : Prop where
  /-- The calls for the size are under way one at a time. -/
  single : ∀ t t' i i', (f.after events).activity? t = some (.sizing g (.asking i)) →
    (f.after events).activity? t' = some (.sizing g (.asking i')) → t = t'
  turns : ∀ before t now d later, f.sizeLedger g events = before ++ .asked t now :: d :: later →
    ∃ e result, d = .ended t e result
  /-- After an answer no call starts before the period has passed. -/
  spaced : ∀ before t e n between t' now later, f.sizeLedger g events =
      before ++ .ended t e (.ok n) :: between ++ .asked t' now :: later →
    e ≤ now ∧ g.sizePeriod.outlasts (now - e) = false
  /-- Other requests do not reach the client. -/
  quiet : ∀ before e, before ++ [e] <+: events → (f.after before).Requests g e →
    (∀ t now, .asked t now ∉ (f.after before).sizeDeeds g e) →
      ((f.after before).step e).world.cloud = (f.after before).world.cloud ∧
        ((f.after before).step e).world.quotas = (f.after before).world.quotas
  /-- A request comes to what its own call was answered, or to an answer that was recent when
  its turn came. -/
  returned : ∀ t n, (begun events)[t]? = some (.size g) →
    (f.after events).outcome? t = some (.size n) →
      (∃ e, .ended t e (.ok n) ∈ f.sizeLedger g events) ∨
        ∃ before now later t' e, f.sizeLedger g events = before ++ .recalled t now n :: later ∧
          .ended t' e (.ok n) ∈ before ∧ e ≤ now ∧ g.sizePeriod.outlasts (now - e) = true
  /-- What a call is answered is the capacity that the client tells at that moment. -/
  told : ∀ before e, before ++ [e] <+: events → ∀ t now n,
    .ended t now (.ok n) ∈ (f.after before).sizeDeeds g e →
      now = (f.after before).world.now ∧
        ∃ x, (f.after before).world.answer f.site.resourceGroup (.scaleSet g.name) = .ok x ∧
          x.capacity = n
  /-- The size and the moment in the cell are those of the last answer. -/
  cached : ((f.after events).world.cell g).size =
    (lastAnswer? (f.sizeLedger g events)).map Prod.fst
  stamped : ((f.after events).world.cell g).askedAt =
    (lastAnswer? (f.sizeLedger g events)).map Prod.snd
  /-- Where no call is answered, as when one fails, the size and its moment stay. -/
  failed : ∀ before e, before ++ [e] <+: events →
    (∀ d ∈ (f.after before).sizeDeeds g e, d.answer? = none) →
      (((f.after before).step e).world.cell g).size = ((f.after before).world.cell g).size ∧
        (((f.after before).step e).world.cell g).askedAt = ((f.after before).world.cell g).askedAt

/-- Whatever requests overlap and whatever happens to the client, the size of a group goes by the
protocol. -/
theorem size_protocol_after {events : List Event}
    (hg : ∀ g', .begin (.size g') ∈ events → g'.serial = g.serial → g' = g) :
    (fresh site cloud files quotas).SizeProtocol g events := by
  have hlawful : ∀ before, before <+: events →
      SizeState.start.Lawful g.sizePeriod ((fresh site cloud files quotas).sizeLedger g before) ∧
        ((fresh site cloud files quotas).after before).Sizing g
          (SizeState.start.afterAll ((fresh site cloud files quotas).sizeLedger g before)) :=
    fun before hbefore ↦ lawful_after site cloud files quotas fun g' hg' ↦
      hg g' (hbefore.subset hg')
  have hknown : ∀ deeds, (SizeState.start.afterAll deeds).known = lastAnswer? deeds := fun deeds ↦
    (SizeState.start.known_afterAll deeds).trans Option.or_none
  obtain ⟨hledger, hsizing⟩ := hlawful events (List.prefix_refl events)
  constructor
  · intro t t' i i' ht ht'
    have hbusy := (hsizing.busy t).mpr ⟨i, ht⟩
    exact Option.some.inj (hbusy.symm.trans ((hsizing.busy t').mpr ⟨i', ht'⟩))
  · intro before t now d later heq
    exact (heq ▸ hledger).next
  · intro before t e n between t' now later heq
    exact (heq ▸ hledger).spaced
  · intro before e hbefore he hquiet
    exact he.quiet hquiet
  · intro t n hbegun ho
    obtain ⟨d, hd, now, rfl | rfl⟩ := exists_deed_of_outcome site cloud files quotas hbegun ho
    · exact Or.inl ⟨now, hd⟩
    · obtain ⟨before, later, heq⟩ := List.append_of_mem hd
      obtain ⟨-, e, hlast, hle, hrecent⟩ := (heq ▸ hledger).permits
      obtain ⟨t', ht'⟩ := mem_of_lastAnswer? ((hknown before).symm.trans hlast)
      exact Or.inr ⟨before, now, later, t', e, heq, ht', hle, hrecent⟩
  · intro before e hbefore t now n h
    have htold := answer_of_mem_deeds h
    rwa [((fresh site cloud files quotas).site_after before).1] at htold
  · rw [hsizing.written.size, hknown]
  · rw [hsizing.written.askedAt, hknown]
  · intro before e hbefore hnone
    have hearlier : before <+: events := (List.prefix_append _ _).trans hbefore
    have hwritten := (hlawful before hearlier).2.written
    have hwritten' := (hlawful (before ++ [e]) hbefore).2.written
    rw [sizeLedger_concat, after_concat] at hwritten'
    have hsame : (SizeState.start.afterAll ((fresh site cloud files quotas).sizeLedger g before ++
        ((fresh site cloud files quotas).after before).sizeDeeds g e)).known =
          (SizeState.start.afterAll
            ((fresh site cloud files quotas).sizeLedger g before)).known := by
      rw [hknown, hknown]
      unfold lastAnswer?
      rw [List.filterMap_append, List.filterMap_eq_nil_iff.mpr hnone, List.append_nil]
    rw [hwritten'.size, hwritten'.askedAt, hsame]
    exact ⟨hwritten.size.symm, hwritten.askedAt.symm⟩

end

/-- Three requests for the size of a group. The first gets an answer after ten milliseconds, the
second recalls it; when it has gone stale the third asks in vain. -/
def sizeRequests (g : NodeGroup) : List Event :=
  [.register ⟨"db", ⟨1, 3⟩⟩, .begin (.size g), .begin (.size g), .elapse 10, .poll 1, .poll 0,
    .account fun a ↦ a.setCapacity "rg" "db" 5, .elapse 14999, .poll 1, .elapse 1,
    .account fun a ↦ a.setFailure (some "down"), .begin (.size g), .elapse 10, .poll 2]

theorem size_protocol_after_requests :
    smallFleet.SizeProtocol ⟨0, "db", ⟨1, 3⟩, defaultSizePeriod⟩
        (sizeRequests ⟨0, "db", ⟨1, 3⟩, defaultSizePeriod⟩) ∧
      ∃ e, smallFleet.sizeLedger ⟨0, "db", ⟨1, 3⟩, defaultSizePeriod⟩
        (sizeRequests ⟨0, "db", ⟨1, 3⟩, defaultSizePeriod⟩) =
          [.asked 0 0, .ended 0 10 (.ok 1), .recalled 1 15009 1, .asked 2 15010,
            .ended 2 15020 (.error e)] := by
  constructor
  · exact size_protocol_after smallSite (.account smallAccount) .empty none (by simp [sizeRequests])
  · exact ⟨_, rfl⟩

end NodeFleet.Fleet
