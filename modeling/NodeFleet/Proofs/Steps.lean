import NodeFleet.Proofs.Polling
/-!
Activities carried on. An activity holds the gate just as long as a cycle of its does; one without a
cycle under way leaves the journal alone. Either way a step of an activity keeps the journal,
disturbs no other activity and leaves its own in a state on which the next step can build.
-/

set_option autoImplicit false
set_option relaxedAutoImplicit false

namespace NodeFleet.Fleet

open NodeFleet.Discovery NodeFleet.Quota

/-- The cycles of an errand. -/
def Errand.cycles (site : Site) : Errand → List Cycle
  | fetch cycle => [cycle]
  | refresh => [.auto]
  | create => [.explicit site.explicitSpecs, .auto]

theorem Errand.cycle_mem (site : Site) (errand : Errand) :
    errand.cycle site ∈ errand.cycles site := by
  cases errand <;> simp [Errand.cycle, Errand.cycles]

namespace Activity

/-- The cycle that an activity is at, and where that is. -/
def underway? (site : Site) : Activity → Option (Cycle × CyclePhase)
  | discovering errand phase => some (errand.cycle site, phase)
  | refreshing r => r.running.map fun phase ↦ (.auto, phase)
  | _ => none

/-- The cycles that an activity is at or may come to. -/
def cycles (site : Site) : Activity → List Cycle
  | discovering errand _ => errand.cycles site
  | refreshing _ => [.auto]
  | _ => []

structure Sound (H : Lore) (site : Site) (j : Journal) (t : Ticket) (a : Activity) : Prop where
  asked : ∀ c ∈ a.cycles site, H.asked t c
  idle : a.underway? site = none → ¬ j.HeldBy t
  busy : ∀ cycle phase, a.underway? site = some (cycle, phase) → phase.Sound H site j t cycle

variable {H : Lore} {site : Site} {j j' : Journal} {t : Ticket} {a : Activity}

theorem Sound.undisturbed (h : a.Sound H site j t) (hu : j.Undisturbed j' t) :
    a.Sound H site j' t :=
  ⟨h.asked, fun ha ht ↦ h.idle ha (hu.1.mp ht),
    fun cycle phase ha ↦ (h.busy cycle phase ha).undisturbed hu⟩

theorem underway?_of_cycles (ha : a.cycles site = []) : a.underway? site = none := by
  cases a with
  | discovering errand phase => cases errand <;> cases ha
  | refreshing r => cases ha
  | _ => rfl

/-- An activity that comes to no cycle has but to stay off the gate. -/
theorem sound_of_cycles (ha : a.cycles site = []) (hout : ¬ j.HeldBy t) : a.Sound H site j t := by
  have hidle := underway?_of_cycles ha
  refine ⟨?_, fun _ ↦ hout, ?_⟩
  · rw [ha]
    exact fun c hc ↦ absurd hc List.not_mem_nil
  · intro cycle phase hbusy
    rw [hidle] at hbusy
    simp at hbusy

theorem underway?_of_running {r : Refresher} {phase : CyclePhase} (hr : r.running = some phase) :
    (refreshing r).underway? site = some (Cycle.auto, phase) := by
  show r.running.map _ = some (Cycle.auto, phase)
  rw [hr]
  rfl

theorem underway?_of_idle {r : Refresher} (hr : r.running = none) :
    (refreshing r).underway? site = none := by
  show r.running.map _ = none
  rw [hr]
  rfl

theorem Sound.auto {r : Refresher} (h : (refreshing r).Sound H site j t) :
    H.asked t Cycle.auto :=
  h.asked Cycle.auto (List.mem_singleton_self _)

/-- A refresher between two cycles does not hold the gate. -/
theorem sound_of_idle {r : Refresher} (hasks : H.asked t Cycle.auto) (hr : r.running = none)
    (hout : ¬ j.HeldBy t) : (refreshing r).Sound H site j t := by
  refine ⟨?_, fun _ ↦ hout, ?_⟩
  · intro c hc
    obtain rfl := List.mem_singleton.mp hc
    exact hasks
  · intro cycle phase hbusy
    rw [underway?_of_idle hr] at hbusy
    simp at hbusy

theorem sound_of_running {r : Refresher} {phase : CyclePhase} (hasks : H.asked t Cycle.auto)
    (hr : r.running = some phase) (hp : phase.Sound H site j t .auto) :
    (refreshing r).Sound H site j t := by
  refine ⟨?_, ?_, ?_⟩
  · intro c hc
    obtain rfl := List.mem_singleton.mp hc
    exact hasks
  · intro hidle
    rw [underway?_of_running hr] at hidle
    simp at hidle
  · intro cycle phase' hbusy
    rw [underway?_of_running hr] at hbusy
    obtain ⟨rfl, rfl⟩ := Prod.mk.inj (Option.some.inj hbusy)
    exact hp

end Activity

variable {α : Type}

/-- Where a step leaves an activity of the ticket. -/
def Left (H : Lore) (site : Site) (j : Journal) (t : Ticket) :
    Progress Activity Outcome → Prop
  | .waiting a => a.Sound H site j t
  | .finished _ => ¬ j.HeldBy t

/-- What carrying an activity on comes to. -/
structure Taken (H : Lore) (site : Site) (t : Ticket) (w : World α) (r : Step α) : Prop where
  kept : r.1.Kept H site
  moved : World.Moved t w r.1
  left : Left H site r.1.journal t r.2

variable {H : Lore} {site : Site} {t : Ticket} {w w' : World α}

theorem Taken.after {r : Step α} (h : Taken H site t w' r) (hm : World.Moved t w w') :
    Taken H site t w r :=
  ⟨h.kept, hm.trans h.moved, h.left⟩

/-! ### Activities without a cycle -/

theorem taken_of_inquired (h : w.Kept H site) (hout : ¬ w.journal.HeldBy t) {r : Step α}
    (hi : World.Inquired w r.1)
    (hidle : ∀ a, r.2 = .waiting a → a.cycles site = []) : Taken H site t w r := by
  refine ⟨h.inquired hi, .of_inquired hi, ?_⟩
  rw [hi.journal]
  rcases r with ⟨w', a | o⟩
  · exact Activity.sound_of_cycles (hidle a rfl) hout
  · exact hout

theorem taken_wrap (h : w.Kept H site) (hout : ¬ w.journal.HeldBy t) {σ ρ : Type}
    {state : σ → Activity} (hidle : ∀ s, (state s).cycles site = []) {result : ρ → Outcome}
    {r : World α × Progress σ ρ} (hi : World.Inquired w r.1) :
    Taken H site t w (World.wrap state result r) := by
  rcases r with ⟨w', s | x⟩
  · refine taken_of_inquired h hout hi ?_
    intro a ha
    obtain rfl := Progress.waiting.inj ha
    exact hidle s
  · exact taken_of_inquired h hout hi fun a ha ↦ by cases ha

theorem taken_resolveWith (h : w.Kept H site) (hout : ¬ w.journal.HeldBy t) (wanted : Wanted)
    {r : World α × Progress Inquiry (Except Error (List ScaleSet))} (hi : World.Inquired w r.1) :
    Taken H site t w (World.resolveWith wanted r) := by
  rcases r with ⟨w', i | listed⟩
  · refine taken_of_inquired h hout hi ?_
    intro a ha
    obtain rfl := Progress.waiting.inj ha
    rfl
  · dsimp only [World.resolveWith, World.resolve]
    cases listed.bind fun l ↦ wanted.candidates l with
    | error e => exact taken_of_inquired h hout hi fun a ha ↦ by cases ha
    | ok candidates =>
      obtain ⟨cells, hnew⟩ := w'.inquired_newGroups candidates
      dsimp only
      rw [hnew]
      exact taken_of_inquired h hout (hi.trans (w'.inquired_cells cells)) fun a ha ↦ by cases ha

/-! ### Activities with cycles -/

theorem Carried.wrapCycle {errand : Errand}
    (hasks : ∀ c ∈ errand.cycles site, H.asked t c)
    {r : World α × Progress CyclePhase (Except Error Unit)}
    (h : Carried H site t (errand.cycle site) w r) :
    Taken H site t w (World.wrapCycle errand r) := by
  have hreached := h.reached
  rcases r with ⟨w', phase | result⟩
  · refine ⟨h.kept, h.moved, hasks, ?_, ?_⟩
    · intro hidle
      cases hidle
    · intro cycle phase' hbusy
      obtain ⟨rfl, rfl⟩ := Prod.mk.inj (Option.some.inj hbusy)
      exact hreached.1
  · exact ⟨h.kept, h.moved, hreached.1.not_heldBy⟩

variable [Balance α]

theorem Carried.afterCycle (htells : ∀ q r, w.Tells site q r → H.told t q r) {errand : Errand}
    (hasks : ∀ c ∈ errand.cycles site, H.asked t c)
    {r : World α × Progress CyclePhase (Except Error Unit)}
    (h : Carried H site t (errand.cycle site) w r) :
    Taken H site t w (World.afterCycle site t errand r) := by
  cases errand with
  | fetch cycle => exact h.wrapCycle hasks
  | refresh => exact h.noted.wrapCycle hasks
  | create =>
    have hreached := h.reached
    rcases r with ⟨w', phase | e | ⟨⟩⟩
    · exact h.wrapCycle hasks
    · exact h.wrapCycle hasks
    · have htells' : ∀ q r, w'.Tells site q r → H.told t q r := fun q r hr ↦
        htells q r (hr.of_answers h.moved.answers)
      have hauto : ∀ c ∈ Errand.refresh.cycles site, H.asked t c := fun c hc ↦
        hasks c (List.mem_cons_of_mem _ hc)
      have hnext : Carried H site t .auto w' (w'.startRefresh site t) :=
        (carried_startCycle h.kept htells' (hauto .auto (List.mem_singleton_self _))
          hreached.1.not_heldBy).noted
      have hrefreshed : Taken H site t w'
          (World.wrapCycle .refresh (w'.startRefresh site t)) := Carried.wrapCycle hauto hnext
      exact hrefreshed.after h.moved

/-! ### Refreshers -/

/-- What rounds of a refresher come to. -/
structure Refreshed (H : Lore) (site : Site) (t : Ticket) (w : World α)
    (r : World α × Refresher) : Prop where
  kept : r.1.Kept H site
  moved : World.Moved t w r.1
  sound : (Activity.refreshing r.2).Sound H site r.1.journal t

omit [Balance α] in
theorem Refreshed.after {r : World α × Refresher} (h : Refreshed H site t w' r)
    (hm : World.Moved t w w') : Refreshed H site t w r :=
  ⟨h.kept, hm.trans h.moved, h.sound⟩

theorem refreshed_drain (h : w.Kept H site) (htells : ∀ q r, w.Tells site q r → H.told t q r)
    (rounds : Nat) {r : Refresher} (hr : (Activity.refreshing r).Sound H site w.journal t) :
    Refreshed H site t w (Refresher.drain site t rounds w r) := by
  induction rounds generalizing w r with
  | zero => exact ⟨h, .refl t w, hr⟩
  | succ rounds ih =>
    unfold Refresher.drain
    by_cases hidle : (r.running.isSome || r.backlog == 0) = true
    · rw [if_pos hidle]
      exact ⟨h, .refl t w, hr⟩
    · rw [if_neg hidle]
      have hnone : r.running = none := by
        cases hrunning : r.running with
        | none => rfl
        | some phase => exact absurd (by rw [hrunning]; rfl) hidle
      have hout : ¬ w.journal.HeldBy t := hr.idle (Activity.underway?_of_idle hnone)
      have hcarried : Carried H site t .auto w (w.startRefresh site t) :=
        (carried_startCycle h htells hr.auto hout).noted
      have hreached := hcarried.reached
      rcases hstart : w.startRefresh site t with ⟨w', phase | result⟩
      · rw [hstart] at hcarried hreached
        exact ⟨hcarried.kept, hcarried.moved,
          Activity.sound_of_running hr.auto rfl hreached.1⟩
      · rw [hstart] at hcarried hreached
        have htells' : ∀ q r, w'.Tells site q r → H.told t q r := fun q r hr ↦
          htells q r (hr.of_answers hcarried.moved.answers)
        dsimp only
        refine (ih hcarried.kept htells' ?_).after hcarried.moved
        exact Activity.sound_of_idle hr.auto (running_afterCycle _ result) hreached.1.not_heldBy

theorem refreshed_poll (h : w.Kept H site) (htells : ∀ q r, w.Tells site q r → H.told t q r)
    {r : Refresher} (hr : (Activity.refreshing r).Sound H site w.journal t) :
    Refreshed H site t w (r.poll w site t) := by
  have habsorb := running_absorb r w.now
  unfold Refresher.poll
  dsimp only
  cases hrunning : (r.absorb w.now).running with
  | none =>
    have hout : ¬ w.journal.HeldBy t :=
      hr.idle (Activity.underway?_of_idle (habsorb.symm.trans hrunning))
    exact refreshed_drain h htells _ (Activity.sound_of_idle hr.auto hrunning hout)
  | some phase =>
    have hphase : phase.Sound H site w.journal t .auto :=
      hr.busy _ _ (Activity.underway?_of_running (habsorb.symm.trans hrunning))
    have hcarried : Carried H site t .auto w (w.pollRefresh site t phase) :=
      (carried_pollCycle h htells hr.auto hphase).noted
    have hreached := hcarried.reached
    dsimp only
    rcases hpoll : w.pollRefresh site t phase with ⟨w', phase' | result⟩
    · rw [hpoll] at hcarried hreached
      exact ⟨hcarried.kept, hcarried.moved,
        Activity.sound_of_running hr.auto rfl hreached.1⟩
    · rw [hpoll] at hcarried hreached
      have htells' : ∀ q r, w'.Tells site q r → H.told t q r := fun q r hr ↦
        htells q r (hr.of_answers hcarried.moved.answers)
      refine (refreshed_drain hcarried.kept htells' _ ?_).after hcarried.moved
      exact Activity.sound_of_idle hr.auto (running_afterCycle _ result) hreached.1.not_heldBy

omit [Balance α] in
theorem Refreshed.wrapRefresher {r : World α × Refresher} (h : Refreshed H site t w r) :
    Taken H site t w (World.wrapRefresher r) := by
  refine ⟨h.kept, h.moved, ?_⟩
  have hsound := h.sound
  dsimp only [World.wrapRefresher]
  split_ifs with hover
  · have hnone : r.2.running = none := by
      have hrunning := (Bool.and_eq_true_iff.mp hover).2
      exact Option.isNone_iff_eq_none.mp hrunning
    exact hsound.idle (Activity.underway?_of_idle hnone)
  · exact hsound

/-! ### Any activity -/

/-- A poll of an activity keeps the journal and disturbs no other activity. -/
theorem taken_pollActivity (h : w.Kept H site) (htells : ∀ q r, w.Tells site q r → H.told t q r)
    {a : Activity} (ha : a.Sound H site w.journal t) :
    Taken H site t w (w.pollActivity site t a) := by
  cases a with
  | pausing wake =>
    dsimp only [World.pollActivity]
    split_ifs
    · exact taken_of_inquired h (ha.idle rfl) (.refl w) fun a ha ↦ by cases ha
    · refine taken_of_inquired h (ha.idle rfl) (.refl w) ?_
      intro a ha
      obtain rfl := Progress.waiting.inj ha
      rfl
  | calling resourceGroup q phase =>
    exact taken_wrap h (ha.idle rfl) (fun _ ↦ rfl)
      (World.asking_inquired.pollCall w resourceGroup q phase)
  | inquiring q i =>
    exact taken_wrap h (ha.idle rfl) (fun _ ↦ rfl) (World.asking_inquired.pollInquiry w site q i)
  | resolving wanted i =>
    exact taken_resolveWith h (ha.idle rfl) wanted
      (World.asking_inquired.pollInquiry w site .scaleSets i)
  | sizing g phase =>
    refine taken_wrap h (ha.idle rfl) (fun _ ↦ rfl) ?_
    exact World.asking_inquired.pollSize w site t (fun _ _ ↦ World.inquired_cells _ _) phase
  | discovering errand phase =>
    have hphase := ha.busy _ _ rfl
    have hcycle := ha.asked _ (errand.cycle_mem site)
    exact (carried_pollCycle h htells hcycle hphase).afterCycle htells ha.asked
  | refreshing r => exact (refreshed_poll h htells ha).wrapRefresher

theorem taken_startErrand (h : w.Kept H site) (htells : ∀ q r, w.Tells site q r → H.told t q r)
    (hout : ¬ w.journal.HeldBy t) {errand : Errand}
    (hasks : ∀ c ∈ errand.cycles site, H.asked t c) :
    Taken H site t w (w.startErrand site t errand) :=
  (carried_startCycle h htells (hasks _ (errand.cycle_mem site)) hout).afterCycle htells hasks

theorem taken_startResolving (h : w.Kept H site) (hout : ¬ w.journal.HeldBy t)
    (wanted : Wanted) : Taken H site t w (w.startResolving site wanted) := by
  unfold World.startResolving
  split_ifs
  · exact taken_of_inquired h hout (.refl w) fun a ha ↦ by cases ha
  · exact taken_resolveWith h hout wanted (World.asking_inquired.pollInquiry w site .scaleSets _)

/-- The cycles that an operation may come to. -/
def Operation.cycles (site : Site) : Operation → List Cycle
  | fetchExplicit texts =>
    match ExplicitSpec.parseAll texts with
    | .error _ => []
    | .ok specs => [.explicit specs]
  | fetchAuto => [.auto]
  | refresh => [.auto]
  | forceRefresh => [.auto]
  | create => [.explicit site.explicitSpecs, .auto]
  | refreshEvery _ => [.auto]
  | _ => []

/-- The first step of an operation keeps the journal and disturbs no activity. -/
theorem taken_startOperation (h : w.Kept H site)
    (htells : ∀ q r, w.Tells site q r → H.told t q r) (hout : ¬ w.journal.HeldBy t) {o : Operation}
    (hasks : ∀ c ∈ o.cycles site, H.asked t c) :
    Taken H site t w (w.startOperation site t o) := by
  have hfinished : ∀ outcome, Taken H site t w (w, .finished outcome) := fun outcome ↦
    taken_of_inquired h hout (.refl w) fun a ha ↦ by cases ha
  cases o with
  | pause millis =>
    have hpausing : (Activity.pausing (w.now + millis)).Sound H site w.journal t :=
      Activity.sound_of_cycles rfl hout
    exact taken_pollActivity h htells hpausing
  | call resourceGroup q =>
    exact taken_wrap h hout (fun _ ↦ rfl) (World.asking_inquired.pollCall w resourceGroup q .fresh)
  | inquire q =>
    exact taken_wrap h hout (fun _ ↦ rfl) (World.asking_inquired.pollInquiry w site q _)
  | resolveExplicit specs => exact taken_startResolving h hout _
  | resolveSelectors selectors => exact taken_startResolving h hout _
  | preview labels =>
    dsimp only [World.startOperation]
    cases Selector.parseAll labels with
    | error e => exact hfinished _
    | ok selectors => exact taken_startResolving h hout _
  | size g =>
    refine taken_wrap h hout (fun _ ↦ rfl) ?_
    exact World.asking_inquired.startSize w site t fun _ _ ↦ World.inquired_cells _ _
  | fetchExplicit texts =>
    dsimp only [World.startOperation]
    dsimp only [Operation.cycles] at hasks
    cases hparse : ExplicitSpec.parseAll texts with
    | error e => exact hfinished _
    | ok specs =>
      rw [hparse] at hasks
      exact taken_startErrand h htells hout hasks
  | fetchAuto => exact taken_startErrand h htells hout hasks
  | refresh =>
    dsimp only [World.startOperation]
    split_ifs
    · exact taken_startErrand h htells hout hasks
    · exact hfinished _
  | forceRefresh => exact taken_startErrand h htells hout hasks
  | create => exact taken_startErrand h htells hout hasks
  | refreshEvery millis =>
    refine ⟨h, .refl t w, ?_⟩
    exact Activity.sound_of_idle (hasks .auto (List.mem_singleton_self _)) rfl hout

end NodeFleet.Fleet
