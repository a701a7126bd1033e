import NodeFleet.Proofs.Continuation
import NodeFleet.Proofs.Provenance
import NodeFleet.Proofs.SizeProtocol
/-!
Handles at hand. A handle is at hand once it has been registered or given out; those that a cycle
makes are not before the cycle has come to its end, so that until then nobody can have asked for
their sizes.
-/

set_option autoImplicit false
set_option relaxedAutoImplicit false

namespace NodeFleet.Fleet

open NodeFleet.Discovery NodeFleet.Quota

variable {α : Type}

section

variable [Balance α]

/-! ### Handles at hand -/

/-- The handles that a cycle makes for what its listing holds. -/
def Brief.handles (site : Site) (b : Brief) : List NodeGroup :=
  match b.listed.bind fun l ↦ b.cycle.candidates site l with
  | .ok candidates => Fleet.handles b.serial candidates
  | .error _ => []

/-- Whether a cycle that has planned keeps the handles that it has made to itself; all others of its
plan are at hand. -/
def Stage.Withholds (site : Site) (hand : Nat → Prop) (size : Nat) : Stage → Prop
  | planned b plan => (∀ g ∈ b.handles site, ¬ hand g.serial ∧ g.serial < size) ∧
      ∀ g ∈ plan.groups, g ∈ b.handles site ∨ hand g.serial
  | _ => True

/-- How groups and the number of handles go with the serial numbers of the handles at hand. -/
structure Holds (site : Site) (hand : Nat → Prop) (size : Nat) (groups : List NodeGroup)
    (s : Stage) : Prop where
  made : ∀ n, hand n → n < size
  registered : ∀ g ∈ groups, hand g.serial
  withholds : s.Withholds site hand size

omit [Balance α] in
theorem World.size_newGroups (w : World α) (candidates : List Candidate) :
    (w.newGroups candidates).1.cells.size = w.cells.size + candidates.length := by
  induction candidates generalizing w with
  | nil => rfl
  | cons c rest ih =>
    have hrest := ih (w.newGroup c defaultSizePeriod).1
    have hpush : (w.newGroup c defaultSizePeriod).1.cells.size = w.cells.size + 1 :=
      Array.size_push ..
    rw [hpush, Nat.add_assoc, Nat.add_comm 1] at hrest
    exact hrest

namespace Holds

variable {site : Site} {hand : Nat → Prop} {size : Nat} {groups : List NodeGroup} {s : Stage}

/-- More handles that are not at hand. -/
theorem grow (h : Holds site hand size groups s) {size' : Nat} (hle : size ≤ size') :
    Holds site hand size' groups s := by
  refine ⟨fun n hn ↦ Nat.lt_of_lt_of_le (h.made n hn) hle, h.registered, ?_⟩
  cases s with
  | planned b plan =>
    obtain ⟨hown, hothers⟩ := h.withholds
    exact ⟨fun g hg ↦ ⟨(hown g hg).1, Nat.lt_of_lt_of_le (hown g hg).2 hle⟩, hothers⟩
  | _ => trivial

theorem plan (h : Holds site hand size groups s) (t : Ticket) (cycle : Cycle)
    {listed : Except Error (List ScaleSet)} {candidates : List Candidate}
    (hc : (listed.bind fun l ↦ cycle.candidates site l) = .ok candidates) {registry : Snapshot}
    (hgroups : registry.groups = groups) (pinned : List String) :
    Holds site hand (size + candidates.length) groups
      (.planned ⟨t, cycle, listed, size⟩
        (cycle.plan registry pinned (handles size candidates))) := by
  have hown : Brief.handles site ⟨t, cycle, listed, size⟩ = handles size candidates := by
    unfold Brief.handles
    rw [hc]
  refine ⟨fun n hn ↦ Nat.lt_of_lt_of_le (h.made n hn) (Nat.le_add_right _ _), h.registered, ?_, ?_⟩
  · intro g hg
    rw [hown] at hg
    obtain ⟨-, hle, hlt⟩ := mem_handles hg
    exact ⟨fun hn ↦ absurd (h.made _ hn) (Nat.not_lt.mpr hle), hlt⟩
  · intro g hg
    rw [hown]
    exact (plan_subset hg).imp_right fun hg ↦ h.registered g (hgroups ▸ hg)

/-- What a cycle installs is at hand from then on. -/
theorem conclude {b : Brief} {plan : Plan} {registered : Snapshot}
    (h : Holds site hand size registered.groups (.planned b plan)) (index : Table String) :
    Holds site (fun n ↦ hand n ∨ ∃ g ∈ plan.groups, g.serial = n) size
      (plan.commit registered index).groups .idle := by
  obtain ⟨hown, hothers⟩ := h.withholds
  refine ⟨?_, ?_, trivial⟩
  · rintro n (hn | ⟨g, hg, rfl⟩)
    · exact h.made n hn
    · rcases hothers g hg with hg | hn
      · exact (hown g hg).2
      · exact h.made _ hn
  · intro g hg
    unfold Plan.commit Plan.installed? at hg
    split_ifs at hg
    · exact Or.inl (h.registered g hg)
    · exact Or.inr ⟨g, hg, rfl⟩

end Holds

/-- What becomes of the handles at hand: more of them, and none that an entered turn has made was
among the first. -/
structure Handed (site : Site) (hand : Nat → Prop) (j : Journal) (w : World α) (s : Stage) :
    Prop where
  holds : ∃ hand' : Nat → Prop, (∀ n, hand n → hand' n) ∧
    Holds site hand' w.cells.size w.registry.groups s
  entered : Journal.Adds (fun x ↦ ∀ g ∈ x.brief.handles site, ¬ hand g.serial) j w.journal

theorem tended_handed (site : Site) (t : Ticket) (hand : Nat → Prop) (j : Journal) :
    Tended site t (Handed (α := α) site hand j) where
  asking s := by
    refine World.asking_of_kept (fun _ _ h ↦ ⟨h.holds, h.entered⟩) fun {w} h ↦ ⟨?_, h.entered⟩
    obtain ⟨hand', hmore, hholds⟩ := h.holds
    have hsize : (w.cells.push .empty).size = w.cells.size + 1 := Array.size_push ..
    refine ⟨hand', hmore, ?_⟩
    show Holds site hand' (w.cells.push .empty).size w.registry.groups s
    exact hholds.grow (hsize ▸ Nat.le_succ _)
  join h := by
    obtain ⟨hand', hmore, hholds⟩ := h.holds
    exact ⟨⟨hand', hmore, hholds.made, hholds.registered, trivial⟩, h.entered⟩
  take h := by
    obtain ⟨hand', hmore, hholds⟩ := h.holds
    exact ⟨⟨hand', hmore, hholds.made, hholds.registered, trivial⟩, h.entered⟩
  fault {w} cycle listed e he h := by
    obtain ⟨hand', hmore, hholds⟩ := h.holds
    refine ⟨⟨hand', hmore, hholds.made, hholds.registered, trivial⟩, h.entered.settle.close ?_⟩
    have hnone : Brief.handles site ⟨t, cycle, listed, w.cells.size⟩ = [] := by
      unfold Brief.handles
      rw [he]
    intro g hg
    rw [hnone] at hg
    cases hg
  plan {w} cycle listed candidates hcandidates h := by
    obtain ⟨hand', hmore, hholds⟩ := h.holds
    obtain ⟨cells, hnew⟩ :=
      ({ w with journal := w.journal.settle } : World α).inquired_newGroups candidates
    have hsize := ({ w with journal := w.journal.settle } : World α).size_newGroups candidates
    rw [hnew] at hsize ⊢
    refine ⟨⟨hand', hmore, ?_⟩, h.entered.settle⟩
    rw [hsize]
    exact hholds.plan t cycle hcandidates rfl w.pinned
  fail h _ _ := by
    obtain ⟨hand', hmore, hholds⟩ := h.holds
    refine ⟨⟨hand', hmore, hholds.made, hholds.registered, trivial⟩, h.entered.close ?_⟩
    exact fun g hg hn ↦ (hholds.withholds.1 g hg).1 (hmore _ hn)
  conclude h _ members := by
    obtain ⟨hand', hmore, hholds⟩ := h.holds
    refine ⟨⟨_, fun n hn ↦ Or.inl (hmore n hn), hholds.conclude (memberIndex members)⟩,
      h.entered.close ?_⟩
    exact fun g hg hn ↦ (hholds.withholds.1 g hg).1 (hmore _ hn)
  noted h := ⟨h.holds, h.entered⟩

/-! ### Groups that are given out -/

section

variable {site : Site} {t : Ticket} {w : World α} {groups : List NodeGroup}

omit [Balance α] in
theorem World.groups_resolveWith {wanted : Wanted}
    {r : World α × Progress Inquiry (Except Error (List ScaleSet))}
    (h : (World.resolveWith wanted r).2 = .finished (.groups groups)) :
    ∀ g ∈ groups, r.1.cells.size ≤ g.serial ∧
      g.serial < (World.resolveWith wanted r).1.cells.size := by
  rcases r with ⟨w', i | listed⟩
  · cases h
  · dsimp only [World.resolveWith] at h ⊢
    unfold World.resolve at h ⊢
    cases hcandidates : listed.bind fun l ↦ wanted.candidates l with
    | error e =>
      rw [hcandidates] at h
      cases h
    | ok candidates =>
      rw [hcandidates] at h
      obtain ⟨cells, hnew⟩ := w'.inquired_newGroups candidates
      have hsize := w'.size_newGroups candidates
      dsimp only at h ⊢
      rw [hnew] at h hsize ⊢
      obtain rfl : handles w'.cells.size candidates = groups := by
        injection h with h
        injection h
      intro g hg
      dsimp only at hsize ⊢
      rw [hsize]
      exact (mem_handles hg).2

omit [Balance α] in
theorem World.groups_wrap {σ ρ : Type} {state : σ → Activity} {result : ρ → Outcome}
    (hresult : ∀ x gs, result x ≠ .groups gs) {r : World α × Progress σ ρ} :
    (World.wrap state result r).2 ≠ .finished (.groups groups) := by
  rcases r with ⟨w', s | x⟩
  · exact fun h ↦ nomatch h
  · exact fun h ↦ hresult x groups (Progress.finished.inj h)

omit [Balance α] in
theorem World.groups_wrapCycle {errand : Errand}
    {r : World α × Progress CyclePhase (Except Error Unit)} :
    (World.wrapCycle errand r).2 ≠ .finished (.groups groups) := by
  refine World.groups_wrap fun x gs h ↦ ?_
  rcases x with e | ⟨⟩ <;> cases h

theorem World.groups_afterCycle {errand : Errand}
    {r : World α × Progress CyclePhase (Except Error Unit)} :
    (World.afterCycle site t errand r).2 ≠ .finished (.groups groups) := by
  cases errand with
  | fetch cycle => exact World.groups_wrapCycle
  | refresh => exact World.groups_wrapCycle
  | create =>
    rcases r with ⟨w', phase | e | ⟨⟩⟩
    · exact World.groups_wrapCycle
    · exact World.groups_wrapCycle
    · exact World.groups_wrapCycle

/-- A poll gives out no handle that was there before. -/
theorem World.groups_pollActivity {a : Activity}
    (h : (w.pollActivity site t a).2 = .finished (.groups groups)) :
    ∀ g ∈ groups, w.cells.size ≤ g.serial ∧
      g.serial < (w.pollActivity site t a).1.cells.size := by
  cases a with
  | pausing wake =>
    dsimp only [World.pollActivity] at h
    split_ifs at h
    cases h
  | calling rg q phase =>
    refine absurd h (World.groups_wrap fun x gs hx ↦ ?_)
    rcases x with e | answer <;> cases hx
  | inquiring q i =>
    refine absurd h (World.groups_wrap fun x gs hx ↦ ?_)
    rcases x with e | answer <;> cases hx
  | resolving wanted i =>
    intro g hg
    obtain ⟨hle, hlt⟩ := World.groups_resolveWith h g hg
    exact ⟨Nat.le_trans (World.borne_size.pollInquiry w site .scaleSets i) hle, hlt⟩
  | sizing g phase =>
    refine absurd h (World.groups_wrap fun x gs hx ↦ ?_)
    rcases x with e | n <;> cases hx
  | discovering errand phase => exact absurd h World.groups_afterCycle
  | refreshing r =>
    dsimp only [World.pollActivity] at h
    unfold World.wrapRefresher at h
    split_ifs at h
    cases h

theorem World.groups_startOperation {o : Operation}
    (h : (w.startOperation site t o).2 = .finished (.groups groups)) :
    ∀ g ∈ groups, w.cells.size ≤ g.serial ∧
      g.serial < (w.startOperation site t o).1.cells.size := by
  have hresolving : ∀ wanted, (w.startResolving site wanted).2 = .finished (.groups groups) →
      ∀ g ∈ groups, w.cells.size ≤ g.serial ∧
        g.serial < (w.startResolving site wanted).1.cells.size := by
    intro wanted hw
    unfold World.startResolving at hw ⊢
    split_ifs at hw ⊢
    · obtain rfl : [] = groups := by
        injection hw with hw
        injection hw
      exact fun g hg ↦ absurd hg List.not_mem_nil
    · intro g hg
      obtain ⟨hle, hlt⟩ := World.groups_resolveWith hw g hg
      exact ⟨Nat.le_trans (World.borne_size.pollInquiry w site .scaleSets _) hle, hlt⟩
  cases o with
  | pause millis => exact World.groups_pollActivity h
  | call rg q =>
    refine absurd h (World.groups_wrap fun x gs hx ↦ ?_)
    rcases x with e | answer <;> cases hx
  | inquire q =>
    refine absurd h (World.groups_wrap fun x gs hx ↦ ?_)
    rcases x with e | answer <;> cases hx
  | resolveExplicit specs => exact hresolving _ h
  | resolveSelectors selectors => exact hresolving _ h
  | preview labels =>
    dsimp only [World.startOperation] at h ⊢
    cases hparse : Selector.parseAll labels with
    | error e =>
      rw [hparse] at h
      cases h
    | ok selectors =>
      rw [hparse] at h
      exact hresolving _ h
  | size g =>
    refine absurd h (World.groups_wrap fun x gs hx ↦ ?_)
    rcases x with e | n <;> cases hx
  | fetchExplicit texts =>
    dsimp only [World.startOperation] at h
    cases hparse : ExplicitSpec.parseAll texts with
    | error e =>
      rw [hparse] at h
      cases h
    | ok specs =>
      rw [hparse] at h
      exact absurd h World.groups_afterCycle
  | refresh =>
    dsimp only [World.startOperation] at h
    split_ifs at h
    · exact absurd h World.groups_afterCycle
    · cases h
  | fetchAuto => exact absurd h World.groups_afterCycle
  | forceRefresh => exact absurd h World.groups_afterCycle
  | create => exact absurd h World.groups_afterCycle
  | refreshEvery millis => cases h

end

/-! ### Fleets -/

/-- Whether a handle of the serial number is registered or has been given out. -/
def Shows (f : Fleet α) (n : Nat) : Prop :=
  (∃ g ∈ f.world.registry.groups, g.serial = n) ∨
    ∃ e ∈ f.outcomes, ∃ groups, e.2 = .groups groups ∧ ∃ g ∈ groups, g.serial = n

/-- How a fleet goes with the serial numbers of the handles at hand: all that it shows are, none
that a cycle under way has made is, and only sizes of those are ever asked for. -/
structure Hand (hand : Nat → Prop) (f : Fleet α) : Prop where
  made : ∀ n, hand n → n < f.world.cells.size
  shown : ∀ n, f.Shows n → hand n
  withheld : ∀ e ∈ f.activities, e.2.stage.Withholds f.site hand f.world.cells.size
  sized : ∀ e ∈ f.activities, ∀ g, e.2.sized? = some g → hand g.serial
  unknown : ∀ g, ¬ hand g.serial → f.world.cell g = .empty

variable {H : Lore} {hand : Nat → Prop} {f f' : Fleet α} {t : Ticket}

omit [Balance α] in
theorem Stage.Withholds.extend {site : Site} {hand hand' : Nat → Prop} {size size' : Nat}
    {s : Stage} (h : s.Withholds site hand size) (hmore : ∀ n, hand n → hand' n)
    (hnew : ∀ n, hand' n → hand n ∨ size ≤ n) (hle : size ≤ size') :
    s.Withholds site hand' size' := by
  cases s with
  | planned b plan =>
    obtain ⟨hown, hothers⟩ := h
    refine ⟨fun g hg ↦ ⟨fun hn ↦ ?_, Nat.lt_of_lt_of_le (hown g hg).2 hle⟩,
      fun g hg ↦ (hothers g hg).imp_right (hmore _)⟩
    rcases hnew _ hn with hn | hn
    · exact (hown g hg).1 hn
    · exact absurd (hown g hg).2 (Nat.not_lt.mpr hn)
  | _ => trivial

omit [Balance α] in
/-- A step of the ticket's activity. -/
theorem Hand.move (h : f.Hand hand) {r : Step α} (hworld : f'.world = r.1)
    (hsite : f'.site = f.site)
    (hactivities : ∀ e ∈ f'.activities, (e ∈ f.activities ∧ e.1 ≠ t) ∨
      ∃ a, r.2 = .waiting a ∧ e = (t, a))
    (houtcomes : ∀ e ∈ f'.outcomes, e ∈ f.outcomes ∨ ∃ o, r.2 = .finished o ∧ e = (t, o))
    (hhanded : Handed f.site hand f.world.journal r.1 (Activity.stageAfter r.2))
    (hsize : f.world.cells.size ≤ r.1.cells.size)
    (hgroups : ∀ groups, r.2 = .finished (.groups groups) → ∀ g ∈ groups,
      f.world.cells.size ≤ g.serial ∧ g.serial < r.1.cells.size)
    (hplanned : ∀ e ∈ f.activities, e.1 ≠ t → ∀ b plan, e.2.stage = .planned b plan →
      r.1.registry = f.world.registry ∧ ∀ b plan, Activity.stageAfter r.2 ≠ .planned b plan)
    (hsized : ∀ a g, r.2 = .waiting a → a.sized? = some g → hand g.serial)
    (hcell : ∀ g, ¬ hand g.serial → r.1.cell g = f.world.cell g) :
    ∃ hand' : Nat → Prop, (∀ n, hand n → hand' n) ∧ f'.Hand hand' := by
  -- who has planned already keeps its handles; else there are no others to keep any
  obtain ⟨hand₀, hmore, hholds, hothers⟩ : ∃ hand₀ : Nat → Prop, (∀ n, hand n → hand₀ n) ∧
      Holds f.site hand₀ r.1.cells.size r.1.registry.groups (Activity.stageAfter r.2) ∧
        ∀ e ∈ f.activities, e.1 ≠ t → ∀ b plan, e.2.stage = .planned b plan →
          ∀ n, hand₀ n → hand n := by
    by_cases hother : ∃ e ∈ f.activities, e.1 ≠ t ∧ ∃ b plan, e.2.stage = .planned b plan
    · obtain ⟨e, he, hne, b, plan, hstage⟩ := hother
      obtain ⟨hregistry, hnone⟩ := hplanned e he hne b plan hstage
      refine ⟨hand, fun n hn ↦ hn, ⟨?_, ?_, ?_⟩, fun _ _ _ _ _ _ n hn ↦ hn⟩
      · exact fun n hn ↦ Nat.lt_of_lt_of_le (h.made n hn) hsize
      · intro g hg
        rw [hregistry] at hg
        exact h.shown _ (Or.inl ⟨g, hg, rfl⟩)
      · cases hstage : Activity.stageAfter r.2 with
        | planned b plan => exact absurd hstage (hnone b plan)
        | _ => trivial
    · obtain ⟨hand₀, hmore, hholds⟩ := hhanded.holds
      refine ⟨hand₀, hmore, hholds, fun e he hne b plan hstage ↦ ?_⟩
      exact absurd ⟨e, he, hne, b, plan, hstage⟩ hother
  refine ⟨fun n ↦ hand₀ n ∨ ∃ groups, r.2 = .finished (.groups groups) ∧ ∃ g ∈ groups, g.serial = n,
    fun n hn ↦ Or.inl (hmore n hn), ?_, ?_, ?_, ?_, ?_⟩
  · rintro n (hn | ⟨groups, hr, g, hg, rfl⟩)
    · rw [hworld]
      exact hholds.made n hn
    · rw [hworld]
      exact (hgroups groups hr g hg).2
  · rintro n (⟨g, hg, rfl⟩ | ⟨e, he, groups, hgiven, g, hg, rfl⟩)
    · rw [hworld] at hg
      exact Or.inl (hholds.registered g hg)
    · rcases houtcomes e he with hold | ⟨o, ho, rfl⟩
      · exact Or.inl (hmore _ (h.shown _ (Or.inr ⟨e, hold, groups, hgiven, g, hg, rfl⟩)))
      · obtain rfl : o = .groups groups := hgiven
        exact Or.inr ⟨groups, ho, g, hg, rfl⟩
  · intro e he
    rw [hsite, hworld]
    rcases hactivities e he with ⟨hold, hne⟩ | ⟨a, ha, rfl⟩
    · cases hstage : e.2.stage with
      | planned b plan =>
        have hwithheld := h.withheld e hold
        rw [hstage] at hwithheld
        refine hwithheld.extend (fun n hn ↦ Or.inl (hmore n hn)) ?_ hsize
        rintro n (hn | ⟨groups, hr, g, hg, rfl⟩)
        · exact Or.inl (hothers e hold hne b plan hstage n hn)
        · exact Or.inr (hgroups groups hr g hg).1
      | _ => trivial
    · have hown := hholds.withholds
      rw [ha] at hown
      refine Stage.Withholds.extend hown (fun n hn ↦ Or.inl hn) ?_ (Nat.le_refl _)
      rintro n (hn | ⟨groups, hr, -⟩)
      · exact Or.inl hn
      · rw [ha] at hr
        cases hr
  · intro e he g hg
    rcases hactivities e he with ⟨hold, -⟩ | ⟨a, ha, rfl⟩
    · exact Or.inl (hmore _ (h.sized e hold g hg))
    · exact Or.inl (hmore _ (hsized a g ha hg))
  · intro g hg
    have hout : ¬ hand g.serial := fun hn ↦ hg (Or.inl (hmore _ hn))
    rw [hworld, hcell g hout]
    exact h.unknown g hout

omit [Balance α] in
theorem mem_activities_settle {r : Step α} {e : Ticket × Activity}
    (he : e ∈ (f.settle t r).activities) :
    (e ∈ f.activities ∧ e.1 ≠ t) ∨ ∃ a, r.2 = .waiting a ∧ e = (t, a) := by
  rcases r with ⟨w, a | o⟩
  · obtain ⟨old, hold, rfl⟩ := List.mem_map.mp he
    split_ifs with hsame
    · exact Or.inr ⟨a, rfl, rfl⟩
    · exact Or.inl ⟨hold, hsame⟩
  · obtain ⟨hold, hne⟩ := List.mem_filter.mp he
    exact Or.inl ⟨hold, by simpa using hne⟩

omit [Balance α] in
theorem mem_outcomes_settle {r : Step α} {e : Ticket × Outcome}
    (he : e ∈ (f.settle t r).outcomes) :
    e ∈ f.outcomes ∨ ∃ o, r.2 = .finished o ∧ e = (t, o) := by
  rcases r with ⟨w, a | o⟩
  · exact Or.inl he
  · exact (List.mem_append.mp he).imp_right fun he ↦ ⟨o, rfl, List.mem_singleton.mp he⟩

theorem mem_activities_begin {o : Operation} {e : Ticket × Activity}
    (he : e ∈ (f.begin o).activities) :
    e ∈ f.activities ∨ ∃ a, (f.world.startOperation f.site f.nextTicket o).2 = .waiting a ∧
      e = (f.nextTicket, a) := by
  unfold Fleet.begin at he
  rcases hstart : f.world.startOperation f.site f.nextTicket o with ⟨w, a | x⟩
  · rw [hstart] at he
    exact (List.mem_append.mp he).imp_right fun he ↦ ⟨a, rfl, List.mem_singleton.mp he⟩
  · rw [hstart] at he
    exact Or.inl he

theorem mem_outcomes_begin {o : Operation} {e : Ticket × Outcome}
    (he : e ∈ (f.begin o).outcomes) :
    e ∈ f.outcomes ∨ ∃ x, (f.world.startOperation f.site f.nextTicket o).2 = .finished x ∧
      e = (f.nextTicket, x) := by
  unfold Fleet.begin at he
  rcases hstart : f.world.startOperation f.site f.nextTicket o with ⟨w, a | x⟩
  · rw [hstart] at he
    exact Or.inl he
  · rw [hstart] at he
    exact (List.mem_append.mp he).imp_right fun he ↦ ⟨x, rfl, List.mem_singleton.mp he⟩

omit [Balance α] in
theorem Handed.changeCell {site : Site} {j : Journal} {w : World α} {s : Stage}
    (h : Handed site hand j w s) (g : NodeGroup) (f : SizeCell → SizeCell) :
    Handed site hand j (w.changeCell g f) s := by
  obtain ⟨hand', hmore, hholds⟩ := h.holds
  refine ⟨⟨hand', hmore, ?_⟩, h.entered⟩
  rw [World.size_changeCell]
  exact hholds

omit [Balance α] in
theorem Hand.handed (h : f.Hand hand) {s : Stage}
    (hs : s.Withholds f.site hand f.world.cells.size) :
    Handed f.site hand f.world.journal f.world s :=
  ⟨⟨hand, fun _ hn ↦ hn, h.made, fun g hg ↦ h.shown _ (Or.inl ⟨g, hg, rfl⟩), hs⟩, .refl _⟩

/-- What a step of an activity adds to the journal: turns that made none of the handles at hand. -/
def Fresh (hand : Nat → Prop) (f f' : Fleet α) : Prop :=
  Journal.Adds (fun x ↦ ∀ g ∈ x.brief.handles f.site, ¬ hand g.serial) f.world.journal
    f'.world.journal

theorem Hand.begin (h : f.Hand hand) (hs : f.Sound H)
    (htells : ∀ q r, f.world.Tells f.site q r → H.told f.nextTicket q r) {o : Operation}
    (hasks : ∀ c ∈ o.cycles f.site, H.asked f.nextTicket c)
    (hsized : ∀ g, o = .size g → hand g.serial) :
    (∃ hand' : Nat → Prop, (∀ n, hand n → hand' n) ∧ (f.begin o).Hand hand') ∧
      Fresh hand f (f.begin o) := by
  have hhanded := (tended_handed f.site f.nextTicket hand f.world.journal).begin
    (fun g change hw ↦ hw.changeCell g change) o (h.handed trivial)
  have hcontinues := (tended_continues f.site f.nextTicket f.world.journal).begin
    (fun g change hw ↦ hw) o (.refl _)
  have htaken := taken_startOperation hs.kept htells (hs.unknown _ (Nat.le_refl _)) hasks
  have hworld := world_begin f o
  refine ⟨h.move (t := f.nextTicket) hworld (f.site_begin o) ?_
    (fun e he ↦ mem_outcomes_begin he) hhanded ?_ ?_ ?_ ?_ ?_, ?_⟩
  · intro e he
    exact (mem_activities_begin he).imp_left fun he ↦ ⟨he, Nat.ne_of_lt (hs.known e he)⟩
  · rw [← hworld]
    exact World.borne_size.begin f fun g _ ↦ World.borne_size.startSize f.world f.site _
      fun w change ↦ Nat.le_of_eq (w.size_changeCell g change).symm
  · exact fun groups hgroups ↦ World.groups_startOperation hgroups
  · exact fun e he hne b plan hstage ↦ hs.registry_of_planned htaken hcontinues he hne hstage
  · intro a g ha hg
    rw [sized?_startOperation ha] at hg
    cases o with
    | size g' =>
      obtain rfl := Option.some.inj hg
      exact hsized _ rfl
    | _ => cases hg
  · intro g hg
    rw [← hworld]
    refine ((World.borne_steady g).begin f fun g' ho ↦ ?_).cell
    have hne : g'.serial ≠ g.serial := fun heq ↦ hg (heq ▸ hsized g' ho)
    exact (World.borne_steady g).startSize f.world f.site _ fun w change ↦
      w.steady_changeCell hne change
  · unfold Fresh
    rw [hworld]
    exact hhanded.entered

theorem Hand.poll (h : f.Hand hand) (hs : f.Sound H) {a : Activity}
    (hactivity : f.activity? t = some a)
    (htells : ∀ q r, f.world.Tells f.site q r → H.told t q r) :
    (∃ hand' : Nat → Prop, (∀ n, hand n → hand' n) ∧ (f.poll t).Hand hand') ∧
      Fresh hand f (f.poll t) := by
  have hmem := mem_of_activity? hactivity
  have hhanded := (tended_handed f.site t hand f.world.journal).poll
    (fun g change hw ↦ hw.changeCell g change) (h.handed (h.withheld _ hmem))
  have hcontinues : f.world.journal.Continues (f.world.pollActivity f.site t a).1.journal :=
    (tended_continues f.site t f.world.journal).poll (fun g change hw ↦ hw) (.refl _)
  have htaken := taken_pollActivity hs.kept htells (hs.activities _ hmem)
  have hpoll : f.poll t = f.settle t (f.world.pollActivity f.site t a) := by
    unfold Fleet.poll
    rw [hactivity]
  have hworld : (f.poll t).world = (f.world.pollActivity f.site t a).1 := by
    rw [hpoll, world_settle]
  refine ⟨h.move (t := t) hworld ?_ ?_ ?_ hhanded ?_ ?_ ?_ ?_ ?_, ?_⟩
  · rw [hpoll, site_settle]
  · rw [hpoll]
    exact fun e he ↦ mem_activities_settle he
  · rw [hpoll]
    exact fun e he ↦ mem_outcomes_settle he
  · rw [← hworld]
    exact World.borne_size.poll f fun g phase _ ↦ World.borne_size.pollSize f.world f.site t
      (fun w change ↦ Nat.le_of_eq (w.size_changeCell g change).symm) phase
  · exact fun groups hgroups ↦ World.groups_pollActivity hgroups
  · exact fun e he hne b plan hstage ↦ hs.registry_of_planned htaken hcontinues he hne hstage
  · intro a' g ha hg
    rw [sized?_pollActivity ha] at hg
    exact h.sized _ hmem g hg
  · intro g hg
    rw [← hworld]
    refine ((World.borne_steady g).poll f fun g' phase hsizing ↦ ?_).cell
    have hne : g'.serial ≠ g.serial := fun heq ↦
      hg (heq ▸ h.sized _ (mem_of_activity? hsizing) g' rfl)
    exact (World.borne_steady g).pollSize f.world f.site t (fun w change ↦
      w.steady_changeCell hne change) phase
  · unfold Fresh
    rw [hworld]
    exact hhanded.entered

omit [Balance α] in
theorem Hand.stop (h : f.Hand hand) (t : Ticket) : (f.stop t).Hand hand := by
  unfold Fleet.stop
  split
  · rename_i r hactivity
    have hmem := mem_of_activity? hactivity
    have hworld : (f.settle t (World.wrapRefresher (f.world, r.stop))).world = f.world :=
      world_settle ..
    have hwaiting : ∀ a, (World.wrapRefresher (f.world, r.stop)).2 = .waiting a →
        a = .refreshing r.stop := by
      intro a ha
      unfold World.wrapRefresher at ha
      split_ifs at ha
      exact (Progress.waiting.inj ha).symm
    refine ⟨?_, ?_, ?_, ?_, ?_⟩
    · rw [hworld]
      exact h.made
    · rintro n (⟨g, hg, rfl⟩ | ⟨e, he, groups, hgiven, hg⟩)
      · rw [hworld] at hg
        exact h.shown _ (Or.inl ⟨g, hg, rfl⟩)
      · rcases mem_outcomes_settle he with hold | ⟨o, ho, rfl⟩
        · exact h.shown n (Or.inr ⟨e, hold, groups, hgiven, hg⟩)
        · obtain rfl : o = .groups groups := hgiven
          unfold World.wrapRefresher at ho
          split_ifs at ho
          cases ho
    · intro e he
      rw [site_settle, hworld]
      rcases mem_activities_settle he with ⟨hold, -⟩ | ⟨a, ha, rfl⟩
      · exact h.withheld e hold
      · have hown := h.withheld _ hmem
        rw [hwaiting a ha]
        exact hown
    · intro e he g hg
      rcases mem_activities_settle he with ⟨hold, -⟩ | ⟨a, ha, rfl⟩
      · exact h.sized e hold g hg
      · rw [hwaiting a ha] at hg
        cases hg
    · rw [hworld]
      exact h.unknown
  · exact h

omit [Balance α] in
theorem Hand.register (h : f.Hand hand) (c : Candidate) :
    ({ f with world := (f.world.register c).1 } : Fleet α).Hand
      fun n ↦ hand n ∨ n = f.world.cells.size := by
  have hsize : (f.world.register c).1.cells.size = f.world.cells.size + 1 := Array.size_push ..
  refine ⟨?_, ?_, ?_, ?_, ?_⟩
  · show ∀ n, _ → n < (f.world.register c).1.cells.size
    rw [hsize]
    rintro n (hn | rfl)
    · exact Nat.lt_succ_of_lt (h.made n hn)
    · exact Nat.lt_succ_self _
  · rintro n (⟨g, hg, rfl⟩ | hgiven)
    · change g ∈ (f.world.registry.register (f.world.newGroup c defaultSizePeriod).2).1.groups at hg
      rw [groups_register] at hg
      rcases placeGroup_subset hg with rfl | hg
      · exact Or.inr rfl
      · exact Or.inl (h.shown _ (Or.inl ⟨g, hg, rfl⟩))
    · exact Or.inl (h.shown n (Or.inr hgiven))
  · intro e he
    show e.2.stage.Withholds f.site _ (f.world.register c).1.cells.size
    rw [hsize]
    refine (h.withheld e he).extend (fun n hn ↦ Or.inl hn) ?_ (Nat.le_succ _)
    rintro n (hn | rfl)
    · exact Or.inl hn
    · exact Or.inr (Nat.le_refl _)
  · exact fun e he g hg ↦ Or.inl (h.sized e he g hg)
  · intro g hg
    exact (f.world.cell_newGroup g c defaultSizePeriod).trans (h.unknown g fun hn ↦ hg (Or.inl hn))

/-- A step that registers nothing directly, after which at least as many handles are at hand. -/
theorem Hand.step_of_ne (h : f.Hand hand) (hs : f.Sound H)
    (htells : ∀ t ≤ f.nextTicket, ∀ q r, f.world.Tells f.site q r → H.told t q r)
    {e : Event} (he : e.Orderly)
    (hasks : ∀ o, e.operation? = some o → ∀ c ∈ o.cycles f.site, H.asked f.nextTicket c)
    (hsized : ∀ g, e = .begin (.size g) → hand g.serial) (hne : ∀ c, e ≠ .register c) :
    (∃ hand' : Nat → Prop, (∀ n, hand n → hand' n) ∧ (f.step e).Hand hand') ∧
      Fresh hand f (f.step e) := by
  have hsame : ∀ f' : Fleet α, f'.Hand hand → f'.world.journal.turns = f.world.journal.turns →
      (∃ hand' : Nat → Prop, (∀ n, hand n → hand' n) ∧ f'.Hand hand') ∧ Fresh hand f f' :=
    fun f' hf' hturns ↦ ⟨⟨hand, fun _ hn ↦ hn, hf'⟩, [], by simpa using hturns,
      fun _ hx ↦ absurd hx List.not_mem_nil⟩
  cases e with
  | begin o =>
    exact h.begin hs (htells _ (Nat.le_refl _)) (hasks o rfl)
      fun g ho ↦ hsized g (congrArg Event.begin ho)
  | poll t =>
    cases hactivity : f.activity? t with
    | none =>
      have hstill : f.poll t = f := by
        unfold Fleet.poll
        rw [hactivity]
      show (∃ hand' : Nat → Prop, _ ∧ (f.poll t).Hand hand') ∧ Fresh hand f (f.poll t)
      rw [hstill]
      exact hsame f h rfl
    | some a =>
      exact h.poll hs hactivity (htells _ (Nat.le_of_lt (hs.known _ (mem_of_activity? hactivity))))
  | elapse millis => exact hsame _ ⟨h.made, h.shown, h.withheld, h.sized, h.unknown⟩ rfl
  | stop t =>
    exact hsame _ (h.stop t) (f.turns_of_other (by rintro o ⟨⟩) (by rintro t ⟨⟩))
  | account change =>
    have hworld : ∃ cloud, f.world.changeAccount change = { f.world with cloud } := by
      unfold World.changeAccount
      split
      · exact ⟨_, rfl⟩
      · exact ⟨f.world.cloud, rfl⟩
    obtain ⟨cloud, hcloud⟩ := hworld
    show (∃ hand' : Nat → Prop, _ ∧
      ({ f with world := f.world.changeAccount change } : Fleet α).Hand hand') ∧
        Fresh hand f { f with world := f.world.changeAccount change }
    rw [hcloud]
    exact hsame _ ⟨h.made, h.shown, h.withheld, h.sized, h.unknown⟩ rfl
  | line line => exact hsame _ ⟨h.made, h.shown, h.withheld, h.sized, h.unknown⟩ rfl
  | files files => exact hsame _ ⟨h.made, h.shown, h.withheld, h.sized, h.unknown⟩ rfl
  | register c => exact absurd rfl (hne c)
  | unregister name =>
    refine hsame _ ⟨h.made, ?_, h.withheld, h.sized, h.unknown⟩ rfl
    rintro n (⟨g, hg, rfl⟩ | hgiven)
    · change g ∈ (f.world.registry.unregister name).1.groups at hg
      rw [groups_unregister] at hg
      exact h.shown _ (Or.inl ⟨g, List.mem_of_mem_filter hg, rfl⟩)
    · exact h.shown n (Or.inr hgiven)
  | replace cs instances => exact he.elim

/-- A step, after which at least as many handles are at hand, among them one that was registered. -/
theorem Hand.step (h : f.Hand hand) (hs : f.Sound H)
    (htells : ∀ t ≤ f.nextTicket, ∀ q r, f.world.Tells f.site q r → H.told t q r)
    {e : Event} (he : e.Orderly)
    (hasks : ∀ o, e.operation? = some o → ∀ c ∈ o.cycles f.site, H.asked f.nextTicket c)
    (hsized : ∀ g, e = .begin (.size g) → hand g.serial) :
    (∃ hand' : Nat → Prop, (∀ n, hand n → hand' n) ∧
      (∀ c, e = .register c → hand' f.world.cells.size) ∧ (f.step e).Hand hand') ∧
        Fresh hand f (f.step e) := by
  by_cases hregister : ∃ c, e = .register c
  · obtain ⟨c, rfl⟩ := hregister
    exact ⟨⟨fun n ↦ hand n ∨ n = f.world.cells.size, fun _ hn ↦ Or.inl hn, fun _ _ ↦ Or.inr rfl,
      h.register c⟩, .refl _⟩
  · obtain ⟨⟨hand', hmore, hhand'⟩, hfresh⟩ := h.step_of_ne hs htells he hasks hsized
      fun c hc ↦ hregister ⟨c, hc⟩
    exact ⟨⟨hand', hmore, fun c hc ↦ absurd ⟨c, hc⟩ hregister, hhand'⟩, hfresh⟩

end

/-! ### Histories -/

section

variable [Balance α] (site : Site) (cloud : Cloud) (files : Files) (quotas : Option (Quotas α))

/-- Whether a handle of the serial number was registered or given out at some moment of a history,
or was made for a direct registration. -/
def Seen (f : Fleet α) (events : List Event) (n : Nat) : Prop :=
  (∃ before, before <+: events ∧ (f.after before).Shows n) ∨
    ∃ g, f.Registered events g ∧ g.serial = n

/-- Whether sizes are only asked for of handles that were there to be seen before. -/
def AsksSeen (f : Fleet α) (events : List Event) : Prop :=
  ∀ before g, before ++ [.begin (.size g)] <+: events → f.Seen before g.serial

theorem asksSeen_concat {f : Fleet α} {events : List Event} {e : Event} :
    f.AsksSeen (events ++ [e]) ↔
      f.AsksSeen events ∧ ∀ g, e = .begin (.size g) → f.Seen events g.serial := by
  constructor
  · intro h
    refine ⟨fun before g hbefore ↦ h before g (hbefore.trans (List.prefix_append _ _)), ?_⟩
    rintro g rfl
    exact h events g (List.prefix_refl _)
  · rintro ⟨h, hlast⟩ before g hbefore
    rcases List.prefix_concat_iff.mp hbefore with heq | hbefore
    · obtain ⟨rfl, he⟩ := List.append_inj' heq rfl
      exact hlast g (List.cons.inj he).1.symm
    · exact h before g hbefore

theorem AsksSeen.append {f : Fleet α} {events later : List Event} (h : f.AsksSeen events)
    (hlater : ∀ e ∈ later, ∀ g, e ≠ .begin (.size g)) : f.AsksSeen (events ++ later) := by
  induction later using List.reverseRecOn with
  | nil => rwa [List.append_nil]
  | append_singleton later e ih =>
    rw [← List.append_assoc]
    exact asksSeen_concat.mpr ⟨ih fun x hx ↦ hlater x (List.mem_append_left _ hx),
      fun g he ↦ absurd he (hlater e (by simp) g)⟩

/-- At every moment of a history some handles are at hand, and all that were there to
be seen are. -/
theorem hand_after {events : List Event} (he : ∀ e ∈ events, e.Orderly)
    (hasks : (fresh site cloud files quotas).AsksSeen events) :
    ∃ hand : Nat → Prop, ((fresh site cloud files quotas).after events).Hand hand ∧
      ∀ n, (fresh site cloud files quotas).Seen events n → hand n := by
  induction events using List.reverseRecOn with
  | nil =>
    refine ⟨fun _ ↦ False, ⟨fun _ hn ↦ hn.elim, ?_, ?_, ?_, fun _ _ ↦ rfl⟩, ?_⟩
    · rintro n (⟨g, hg, -⟩ | ⟨e, he, -⟩)
      · exact absurd hg List.not_mem_nil
      · exact absurd he List.not_mem_nil
    · exact fun e he ↦ absurd he List.not_mem_nil
    · exact fun e he ↦ absurd he List.not_mem_nil
    · rintro n (⟨before, hbefore, hshown⟩ | ⟨g, ⟨before, c, hbefore, -⟩, -⟩)
      · obtain rfl := List.prefix_nil.mp hbefore
        rcases hshown with ⟨g, hg, -⟩ | ⟨e, he, -⟩
        · exact absurd hg List.not_mem_nil
        · exact absurd he List.not_mem_nil
      · exact absurd (List.prefix_nil.mp hbefore) (by simp)
  | append_singleton earlier e ih =>
    have hprefix : earlier <+: earlier ++ [e] := List.prefix_append _ _
    obtain ⟨hearlier, hlast⟩ := asksSeen_concat.mp hasks
    obtain ⟨hand, hhand, hseen⟩ := ih (fun x hx ↦ he x (List.mem_append_left _ hx)) hearlier
    have hsound := sound_after site cloud files quotas he hprefix
    have hsized : ∀ g, e = .begin (.size g) → hand g.serial := fun g hg ↦ hseen _ (hlast g hg)
    obtain ⟨hand', hmore, hregistered, hhand'⟩ := (hhand.step hsound (tells_lore _ hprefix)
      (he e (by simp)) (asked_lore site cloud files quotas (List.prefix_refl _)) hsized).1
    refine ⟨hand', by rwa [after_concat], ?_⟩
    rintro n (⟨before, hbefore, hshown⟩ | ⟨g, ⟨before, c, hbefore, rfl⟩, rfl⟩)
    · rcases List.prefix_concat_iff.mp hbefore with rfl | hbefore
      · rw [after_concat] at hshown
        exact hhand'.shown n hshown
      · exact hmore n (hseen n (Or.inl ⟨before, hbefore, hshown⟩))
    · rcases List.prefix_concat_iff.mp hbefore with heq | hbefore
      · obtain ⟨rfl, hregister⟩ := List.append_inj' heq rfl
        exact hregistered c (List.cons.inj hregister).1.symm
      · exact hmore _ (hseen _ (Or.inr ⟨_, ⟨before, c, hbefore, rfl⟩, rfl⟩))

end

end NodeFleet.Fleet
