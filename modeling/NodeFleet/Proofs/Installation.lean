import NodeFleet.Proofs.Failure
import NodeFleet.Proofs.SizeCells
/-!
Calls of one cycle with which nothing interferes, from whatever fleet they begin on. Until such a
call succeeds it spares registry, pins and sizes; when it does, it has installed what its cycle
plans from the registry and the pins on which it began, once, with the members that it was told
about.
-/

set_option autoImplicit false
set_option relaxedAutoImplicit false

namespace NodeFleet.Fleet

open NodeFleet.Discovery NodeFleet.Quota

variable {α : Type}

/-- Worlds with the same registry, the same pins and the same sizes, of which the later may
have more handles. -/
structure World.Spared (w w' : World α) : Prop where
  registry : w'.registry = w.registry
  pinned : w'.pinned = w.pinned
  cells : ∀ g, w'.cell g = w.cell g
  size : w.cells.size ≤ w'.cells.size

namespace World.Spared

variable {w w' w'' : World α}

theorem refl (w : World α) : w.Spared w :=
  ⟨rfl, rfl, fun _ ↦ rfl, Nat.le_refl _⟩

theorem trans (h : w.Spared w') (h' : w'.Spared w'') : w.Spared w'' :=
  ⟨h'.registry.trans h.registry, h'.pinned.trans h.pinned,
    fun g ↦ (h'.cells g).trans (h.cells g), Nat.le_trans h.size h'.size⟩

/-- Nothing else of a world matters. -/
theorem of_eq (h : w.Spared w') (hregistry : w''.registry = w'.registry)
    (hpinned : w''.pinned = w'.pinned) (hcells : w''.cells = w'.cells) : w.Spared w'' := by
  refine ⟨hregistry.trans h.registry, hpinned.trans h.pinned, fun g ↦ ?_, hcells ▸ h.size⟩
  rw [← h.cells g]
  unfold cell
  rw [hcells]

theorem asking [Balance α] : Asking (World.Spared (α := α)) where
  refl := .refl
  trans := .trans
  attempt w resourceGroup q := by
    obtain ⟨cloud, quotas, hasked⟩ := w.attempt_eq resourceGroup q
    rw [hasked]
    exact ⟨rfl, rfl, fun _ ↦ rfl, Nat.le_refl _⟩
  newGroup w c period :=
    ⟨rfl, rfl, fun g ↦ w.cell_newGroup g c period, borne_size.newGroup w c period⟩

end World.Spared

theorem World.spared_changeAccount (w : World α) (change : Account → Account) :
    w.Spared (w.changeAccount change) := by
  unfold World.changeAccount
  split
  · exact (Spared.refl w).of_eq rfl rfl rfl
  · exact .refl w

/-! ### One cycle -/

section

variable (H : Lore) (site : Site) (t : Ticket) (cycle : Cycle) (w : World α)

/-- What a cycle goes by: a listing that it was told, the candidates of that, and the serial number
of the first of their handles, which nobody had before. -/
structure Goes (listing : List ScaleSet) (candidates : List Candidate) (serial : Nat) : Prop where
  heard : if cycle.needsListing site then H.told t .scaleSets (.ok listing) else listing = []
  candidates : cycle.candidates site listing = .ok candidates
  new : w.cells.size ≤ serial

/-- The plan of a cycle from the registry and the pins on which it began. -/
def planFrom (candidates : List Candidate) (serial : Nat) : Plan :=
  cycle.plan w.registry w.pinned (handles serial candidates)

/-- What a phase has to show that began on a world. -/
def CyclePhase.Expects : CyclePhase → Prop
  | indexing _ plan listings => ∃ listing candidates serial,
    Goes H site t cycle w listing candidates serial ∧ plan = planFrom cycle w candidates serial ∧
      List.Forall₂ (Listing.Heard H t) plan.groups listings
  | listing _ => cycle.needsListing site = true
  | queued => True

/-- Whether the members are those that the cycle was told about a group. -/
def ToldMembers (g : NodeGroup) (l : String × List Member) : Prop :=
  l.1 = g.name ∧ ∃ answer, H.told t (.members g.name) answer ∧ membersOrNone answer = .ok l.2

/-- What a cycle has made of a world once it has succeeded. -/
structure Installs (w' : World α) (listing : List ScaleSet) (candidates : List Candidate)
    (serial : Nat) (members : List (String × List Member)) : Prop where
  goes : Goes H site t cycle w listing candidates serial
  told : List.Forall₂ (ToldMembers H t) (planFrom cycle w candidates serial).groups members
  books : w'.books = w.books.install (planFrom cycle w candidates serial) (memberIndex members)
  cells : ∀ g, w'.cell g = w.cell g
  size : w.cells.size ≤ w'.cells.size

def Installed (w' : World α) : Prop :=
  ∃ listing candidates serial members,
    Installs H site t cycle w w' listing candidates serial members

/-- Where a step leaves a cycle that began on a world. -/
def Onward (r : World α × Progress CyclePhase (Except Error Unit)) : Prop :=
  match r.2 with
  | .waiting phase => w.Spared r.1 ∧ phase.Expects H site t cycle w
  | .finished (.error _) => w.Spared r.1
  | .finished (.ok ()) => Installed H site t cycle w r.1

end

variable {H : Lore} {site : Site} {t : Ticket} {cycle : Cycle} {errand : Errand} {w₀ w : World α}

theorem toldMembers_of_gathered {groups : List NodeGroup} {listings : List Listing}
    (h : List.Forall₂ (Listing.Heard H t) groups listings) {members : List (String × List Member)}
    (hm : gathered? groups listings = some members) :
    List.Forall₂ (ToldMembers H t) groups members := by
  induction h generalizing members with
  | nil =>
    obtain rfl := Option.some.inj hm
    exact .nil
  | cons hg hrest ih =>
    rename_i g l groups listings
    unfold gathered? at hm ih
    rw [List.zip_cons_cons, List.mapM_cons] at hm
    obtain ⟨first, hfirst, hm⟩ := Option.bind_eq_some_iff.mp hm
    obtain ⟨rest, hgathered, hm⟩ := Option.bind_eq_some_iff.mp hm
    obtain rfl := Option.some.inj hm
    obtain ⟨found, hfound, rfl⟩ := Option.map_eq_some_iff.mp hfirst
    refine .cons ⟨rfl, ?_⟩ (ih hgathered)
    cases l with
    | waiting i => cases hfound
    | arrived answer =>
      refine ⟨answer, hg, ?_⟩
      dsimp only [Listing.members?] at hfound
      cases hanswer : membersOrNone answer with
      | error e => simp [hanswer, Except.toOption] at hfound
      | ok given =>
        rw [hanswer] at hfound
        exact congrArg Except.ok (Option.some.inj hfound)

theorem Installed.spared {w' : World α} (h : Installed H site t cycle w₀ w) (hw : w.Spared w') :
    Installed H site t cycle w₀ w' := by
  obtain ⟨listing, candidates, serial, members, hinstalls⟩ := h
  refine ⟨listing, candidates, serial, members, hinstalls.goes, hinstalls.told, ?_,
    fun g ↦ (hw.cells g).trans (hinstalls.cells g), Nat.le_trans hinstalls.size hw.size⟩
  rw [← hinstalls.books]
  unfold World.books
  rw [hw.registry, hw.pinned]

variable [Balance α]

theorem onward_pollIndexing (hw : w₀.Spared w)
    (htells : ∀ q r, w.Tells site q r → H.told t q r) {b : Brief} {plan : Plan}
    {listings : List Listing} (hphase : CyclePhase.Expects H site t cycle w₀
      (.indexing b plan listings)) :
    Onward H site t cycle w₀ (w.pollIndexing site b plan listings) := by
  obtain ⟨listing, candidates, serial, hgoes, rfl, hlistings⟩ := hphase
  have hheard := World.heard_pollListings htells hlistings
  have hspared := hw.trans
    (World.Spared.asking.pollListings w site (planFrom cycle w₀ candidates serial).groups listings)
  unfold World.pollIndexing
  rcases hpoll : w.pollListings site (planFrom cycle w₀ candidates serial).groups listings with
    ⟨w', listings'⟩
  rw [hpoll] at hheard hspared
  dsimp only
  cases hfailure : listings'.findSome? Listing.failure? with
  | some e => exact hspared.of_eq rfl rfl rfl
  | none =>
    cases hgathered : gathered? (planFrom cycle w₀ candidates serial).groups listings' with
    | none => exact ⟨hspared, listing, candidates, serial, hgoes, rfl, hheard⟩
    | some members =>
      refine ⟨listing, candidates, serial, members, hgoes,
        toldMembers_of_gathered hheard hgathered, ?_, hspared.cells, hspared.size⟩
      show Books.mk ((planFrom cycle w₀ candidates serial).commit w'.registry _)
        (w'.pinned ++ _) = _
      rw [hspared.registry, hspared.pinned]
      rfl

theorem onward_planCycle (hw : w₀.Spared w)
    (htells : ∀ q r, w.Tells site q r → H.told t q r) {listed : Except Error (List ScaleSet)}
    (hlisted : ∀ listing, listed = .ok listing →
      if cycle.needsListing site then H.told t .scaleSets (.ok listing) else listing = []) :
    Onward H site t cycle w₀ (w.planCycle site t cycle listed) := by
  unfold World.planCycle
  dsimp only
  cases hcandidates : listed.bind fun l ↦ cycle.candidates site l with
  | error e => exact hw.of_eq rfl rfl rfl
  | ok candidates =>
    cases listed with
    | error e => cases hcandidates
    | ok listing =>
      have hsettled : w₀.Spared { w with journal := w.journal.settle } := hw.of_eq rfl rfl rfl
      have hspared := hsettled.trans (World.Spared.asking.newGroups _ candidates)
      obtain ⟨cells, hnew⟩ :=
        ({ w with journal := w.journal.settle } : World α).inquired_newGroups candidates
      dsimp only
      rw [hnew] at hspared ⊢
      refine onward_pollIndexing hspared (fun q r hr ↦ htells q r hr) ?_
      refine ⟨listing, candidates, w.cells.size, ⟨hlisted listing rfl, hcandidates, hw.size⟩,
        ?_, ?_⟩
      · show cycle.plan w.registry w.pinned _ = _
        rw [hw.registry, hw.pinned]
        rfl
      · exact List.forall₂_map_right_iff.mpr (List.forall₂_same.mpr fun _ _ ↦ trivial)

theorem onward_pollListing (hw : w₀.Spared w)
    (htells : ∀ q r, w.Tells site q r → H.told t q r) (hneeds : cycle.needsListing site = true)
    (i : Inquiry) : Onward H site t cycle w₀ (w.pollListing site t cycle i) := by
  have hspared := hw.trans (World.Spared.asking.pollInquiry w site .scaleSets i)
  have hasked := World.asking_inquired.pollInquiry w site .scaleSets i
  unfold World.pollListing
  rcases hpoll : w.pollInquiry site .scaleSets i with ⟨w', i' | listed⟩
  · rw [hpoll] at hspared
    exact ⟨hspared, hneeds⟩
  · rw [hpoll] at hspared hasked
    refine onward_planCycle hspared (fun q r hr ↦ htells q r (hasked.tells hr)) ?_
    rintro listing rfl
    rw [if_pos hneeds]
    exact htells _ _ (World.tells_pollInquiry (congrArg Prod.snd hpoll))

/-- A poll of a cycle spares everything, or installs its plan. -/
theorem onward_pollCycle (hw : w₀.Spared w)
    (htells : ∀ q r, w.Tells site q r → H.told t q r) {phase : CyclePhase}
    (hphase : phase.Expects H site t cycle w₀) :
    Onward H site t cycle w₀ (w.pollCycle site t cycle phase) := by
  cases phase with
  | queued =>
    dsimp only [World.pollCycle]
    have hgiven : w₀.Spared { w with journal := w.journal.giveGate t } := hw.of_eq rfl rfl rfl
    split_ifs with hgate hneeds
    · exact onward_pollListing hgiven htells hneeds _
    · refine onward_planCycle hgiven htells ?_
      intro listing hlisting
      rw [if_neg hneeds]
      exact (Except.ok.inj hlisting).symm
    · exact ⟨hw, trivial⟩
  | listing i => exact onward_pollListing hw htells hphase i
  | indexing b plan listings => exact onward_pollIndexing hw htells hphase

theorem onward_startCycle (hw : w₀.Spared w) (htells : ∀ q r, w.Tells site q r → H.told t q r) :
    Onward H site t cycle w₀ (w.startCycle site t cycle) := by
  have hjoined : w₀.Spared (w.joinGate t) := hw.of_eq rfl rfl rfl
  have hqueued : CyclePhase.Expects H site t cycle w₀ .queued := trivial
  exact onward_pollCycle hjoined htells hqueued

omit [Balance α] in
theorem Onward.noted {r : World α × Progress CyclePhase (Except Error Unit)}
    (h : Onward H site t cycle w₀ r) : Onward H site t cycle w₀ (World.noted r) := by
  rcases r with ⟨w', phase | e | ⟨⟩⟩
  · exact h
  · exact h
  · exact Installed.spared h ((World.Spared.refl w').of_eq rfl rfl rfl)

/-! ### Calls -/

/-- Where a step leaves a call whose cycle began on a world. -/
inductive StepOnward (H : Lore) (site : Site) (t : Ticket) (errand : Errand) (w₀ : World α) :
    Step α → Prop
  | waiting {w : World α} {phase : CyclePhase} : w₀.Spared w →
      phase.Expects H site t (errand.cycle site) w₀ →
        StepOnward H site t errand w₀ (w, .waiting (.discovering errand phase))
  | failed {w : World α} {e : Error} : w₀.Spared w →
      StepOnward H site t errand w₀ (w, .finished (.failed e))
  | done {w : World α} : Installed H site t (errand.cycle site) w₀ w →
      StepOnward H site t errand w₀ (w, .finished .done)

omit [Balance α] in
theorem stepOnward_wrapCycle {r : World α × Progress CyclePhase (Except Error Unit)}
    (h : Onward H site t (errand.cycle site) w₀ r) :
    StepOnward H site t errand w₀ (World.wrapCycle errand r) := by
  rcases r with ⟨w', phase | e | ⟨⟩⟩
  · exact .waiting h.1 h.2
  · exact .failed h
  · exact .done h

theorem stepOnward_afterCycle (he : errand ≠ .create)
    {r : World α × Progress CyclePhase (Except Error Unit)}
    (h : Onward H site t (errand.cycle site) w₀ r) :
    StepOnward H site t errand w₀ (World.afterCycle site t errand r) := by
  cases errand with
  | fetch cycle => exact stepOnward_wrapCycle h
  | refresh => exact stepOnward_wrapCycle h.noted
  | create => exact absurd rfl he

/-- Where a call stands whose cycle began on a world and with which nothing has interfered. -/
inductive Running (H : Lore) (t : Ticket) (errand : Errand) (w₀ : World α) (f : Fleet α) : Prop
  | underWay {phase : CyclePhase} : f.outcome? t = none →
      f.activity? t = some (.discovering errand phase) → w₀.Spared f.world →
        phase.Expects H f.site t (errand.cycle f.site) w₀ → Running H t errand w₀ f
  | failed {e : Error} : f.outcome? t = some (.failed e) → f.activity? t = none →
      w₀.Spared f.world → Running H t errand w₀ f
  | done : f.outcome? t = some .done → f.activity? t = none →
      Installed H f.site t (errand.cycle f.site) w₀ f.world → Running H t errand w₀ f

variable {f : Fleet α} {o : Operation} {during : List Event}

omit [Balance α] in
theorem running_settle (hnone : f.outcome? t = none) {a : Activity}
    (ha : f.activity? t = some a) {s : Step α} (hs : StepOnward H f.site t errand w₀ s) :
    Running H t errand w₀ (f.settle t s) := by
  have hsite := f.site_settle t s
  have houtcome := f.outcome?_settle t t s
  have hactivity := activity?_settle ha s t
  rw [hnone, Option.none_or] at houtcome
  rw [if_pos rfl] at hactivity
  cases hs with
  | waiting hspared hphase => exact .underWay houtcome hactivity hspared hphase
  | failed hspared => exact .failed (houtcome.trans (if_pos rfl)) hactivity hspared
  | done hinstalls => exact .done (houtcome.trans (if_pos rfl)) hactivity hinstalls

theorem running_begin {events : List Event} (h : f.Tracked events)
    (hs : StepOnward H f.site f.nextTicket errand f.world
      (f.world.startOperation f.site f.nextTicket o)) :
    Running H f.nextTicket errand f.world (f.begin o) := by
  have hsite := f.site_begin o
  have houtcome := f.outcome?_begin o f.nextTicket
  have hactivity := activity?_begin_self (o := o) h.fresh_activity
  have hworld := f.world_begin o
  rw [outcome?_eq_none_of_le h (Nat.le_refl _), Option.none_or] at houtcome
  generalize hstart : f.world.startOperation f.site f.nextTicket o = s at *
  cases hs with
  | waiting hspared hphase =>
    refine .underWay houtcome hactivity (hworld ▸ hspared) ?_
    rw [hsite]
    exact hphase
  | failed hspared => exact .failed (houtcome.trans (if_pos rfl)) hactivity (hworld ▸ hspared)
  | done hinstalls =>
    refine .done (houtcome.trans (if_pos rfl)) hactivity ?_
    rw [hsite, hworld]
    exact hinstalls

/-- What passes by a call spares everything. -/
theorem spared_step_of_passing {e : Event} (he : e.Attends t) (hpoll : e ≠ .poll t) :
    f.world.Spared (f.step e).world ∧ (f.step e).activity? t = f.activity? t ∧
      (f.step e).outcome? t = f.outcome? t := by
  cases e with
  | poll t' => exact absurd (congrArg Event.poll he) hpoll
  | elapse millis => exact ⟨(World.Spared.refl f.world).of_eq rfl rfl rfl, rfl, rfl⟩
  | account change => exact ⟨World.spared_changeAccount f.world change, rfl, rfl⟩
  | line line => exact ⟨(World.Spared.refl f.world).of_eq rfl rfl rfl, rfl, rfl⟩
  | files files => exact ⟨(World.Spared.refl f.world).of_eq rfl rfl rfl, rfl, rfl⟩
  | _ => exact he.elim

/-- So does everything once the call has ended. -/
theorem spared_step_of_ended (h : f.activity? t = none) {e : Event} (he : e.Attends t) :
    f.world.Spared (f.step e).world ∧ (f.step e).activity? t = none := by
  by_cases hpoll : e = .poll t
  · obtain rfl := hpoll
    show f.world.Spared (f.poll t).world ∧ (f.poll t).activity? t = none
    unfold Fleet.poll
    rw [h]
    exact ⟨.refl _, h⟩
  · obtain ⟨hspared, hactivity, -⟩ := spared_step_of_passing (f := f) he hpoll
    exact ⟨hspared, hactivity.trans h⟩

/-- Once a call has ended nothing happens any more. -/
theorem spared_after_of_ended (h : f.activity? t = none) (hattends : ∀ e ∈ during, e.Attends t) :
    f.world.Spared (f.after during).world := by
  induction during generalizing f with
  | nil => exact .refl _
  | cons e later ih =>
    obtain ⟨he, hlater⟩ := List.forall_mem_cons.mp hattends
    obtain ⟨hspared, hended⟩ := spared_step_of_ended h he
    exact hspared.trans (ih hended hlater)

theorem Running.step (h : Running H t errand w₀ f) (hone : errand ≠ .create)
    (htells : ∀ q r, f.world.Tells f.site q r → H.told t q r) {e : Event} (he : e.Attends t) :
    Running H t errand w₀ (f.step e) := by
  cases h with
  | underWay hnone hactivity hspared hphase =>
    by_cases hpoll : e = .poll t
    · obtain rfl := hpoll
      show Running H t errand w₀ (f.poll t)
      unfold Fleet.poll
      rw [hactivity]
      exact running_settle hnone hactivity
        (stepOnward_afterCycle hone (onward_pollCycle hspared htells hphase))
    · obtain ⟨hstep, hactivity', houtcome'⟩ := spared_step_of_passing (f := f) he hpoll
      refine .underWay (houtcome'.trans hnone) (hactivity'.trans hactivity)
        (hspared.trans hstep) ?_
      rw [(f.site_step e).1]
      exact hphase
  | failed houtcome hactivity hspared =>
    obtain ⟨hstep, hended⟩ := spared_step_of_ended hactivity he
    exact .failed (outcome?_step_of_some houtcome e) hended (hspared.trans hstep)
  | done houtcome hactivity hinstalled =>
    obtain ⟨hstep, hended⟩ := spared_step_of_ended hactivity he
    refine .done (outcome?_step_of_some houtcome e) hended ?_
    rw [(f.site_step e).1]
    exact hinstalled.spared hstep

/-- What a call is told that begins on a fleet, and by what moments. -/
def heard (f : Fleet α) (o : Operation) (during : List Event) : Lore :=
  f.lore (.begin o :: during)

/-- A call of one cycle with which nothing interferes is under way, has failed and spared
everything, or has installed its plan. -/
theorem Reachable.running (hf : f.Reachable) (hone : errand ≠ .create)
    (hstart : f.world.startOperation f.site f.nextTicket o =
      f.world.startErrand f.site f.nextTicket errand)
    (hattends : ∀ e ∈ during, e.Attends f.nextTicket) {before : List Event}
    (hbefore : before <+: during) :
    Running (f.heard o during) f.nextTicket errand f.world ((f.begin o).after before) := by
  obtain ⟨events, htracked, -⟩ := hf.tracked o []
  induction before using List.reverseRecOn with
  | nil =>
    have htells := f.tells_lore (List.nil_prefix (l := .begin o :: during)) f.nextTicket
      (Nat.le_refl _)
    refine running_begin htracked ?_
    rw [hstart]
    exact stepOnward_afterCycle hone (onward_startCycle (.refl _) htells)
  | append_singleton before e ih =>
    have hprefix : before <+: during := (List.prefix_append _ _).trans hbefore
    have hmem : e ∈ during := hbefore.subset (by simp)
    have hlonger : .begin o :: before <+: .begin o :: during :=
      List.cons_prefix_cons.mpr ⟨rfl, hprefix⟩
    have htells := f.tells_lore hlonger f.nextTicket
      (Nat.le_of_lt (lt_nextTicket_after f o before))
    rw [after_concat]
    exact (ih hprefix).step hone htells (hattends e hmem)

/-- A call that succeeds has installed its plan, and the registry changed once at most meanwhile. -/
theorem Reachable.installed (hf : f.Reachable) (hone : errand ≠ .create)
    (hstart : f.world.startOperation f.site f.nextTicket o =
      f.world.startErrand f.site f.nextTicket errand)
    (hattends : ∀ e ∈ during, e.Attends f.nextTicket)
    (hdone : ((f.begin o).after during).outcome? f.nextTicket = some .done) :
    Installed (f.heard o during) f.site f.nextTicket (errand.cycle f.site) f.world
        ((f.begin o).after during).world ∧
      ∀ before, before <+: during →
        ((f.begin o).after before).world.registry = f.world.registry ∨
        ((f.begin o).after before).world.registry =
          ((f.begin o).after during).world.registry := by
  refine ⟨?_, fun before hbefore ↦ ?_⟩
  · cases hf.running hone hstart hattends (List.prefix_refl during) with
    | underWay hnone => cases hnone.symm.trans hdone
    | failed hfailed => cases hfailed.symm.trans hdone
    | done _ _ hinstalled =>
      rw [((f.begin o).site_after during).1, site_begin] at hinstalled
      exact hinstalled
  · cases hf.running hone hstart hattends hbefore with
    | underWay _ _ hspared => exact Or.inl hspared.registry
    | failed _ _ hspared => exact Or.inl hspared.registry
    | done _ hended _ =>
      obtain ⟨later, rfl⟩ := hbefore
      have hlater : ∀ e ∈ later, e.Attends f.nextTicket := fun e he ↦
        hattends e (List.mem_append_right _ he)
      rw [after_append]
      exact Or.inr (spared_after_of_ended hended hlater).registry.symm

end NodeFleet.Fleet
