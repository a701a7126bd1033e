import NodeFleet.Proofs.Retagging
import NodeFleet.Proofs.TokenLines
/-!
Worlds that differ only in the inventory, side by side. All that a cycle asks goes the same way on
both: calls, tokens and waits, and the members of the groups. So do auto discoveries, if from the
two listings the selectors of the site select the same but for the bounds of pinned names.
-/

set_option autoImplicit false
set_option relaxedAutoImplicit false

namespace NodeFleet.Fleet

open NodeFleet.Discovery NodeFleet.Quota

variable {α : Type}

/-! ### Worlds -/

/-- What both of two runs have come to, in worlds that are related. -/
inductive Paired {σ ρ : Type} (P : World α → World α → Prop) (S : σ → σ → Prop) (R : ρ → ρ → Prop) :
    World α × Progress σ ρ → World α × Progress σ ρ → Prop
  | waiting {w w' : World α} {s s' : σ} : P w w' → S s s' →
      Paired P S R (w, .waiting s) (w', .waiting s')
  | finished {w w' : World α} {r r' : ρ} : P w w' → R r r' →
      Paired P S R (w, .finished r) (w', .finished r')

theorem Paired.imp {σ ρ : Type} {P : World α → World α → Prop} {S : σ → σ → Prop}
    {R R' : ρ → ρ → Prop} {x y : World α × Progress σ ρ} (h : Paired P S R x y)
    (hr : ∀ r r', R r r' → R' r r') :
    Paired P S R' x y := by
  cases h with
  | waiting hw hs => exact .waiting hw hs
  | finished hw hrelated => exact .finished hw (hr _ _ hrelated)

/-- Worlds that differ only in the inventory. With regard to the pins the inventories list related
scale sets; otherwise they answer alike, and all answers take the same time. -/
structure World.Aligned (R : List String → List ScaleSet → List ScaleSet → Prop)
    (resourceGroup : String) (w w' : World α) : Prop where
  same : ∃ cloud line files journal, w' = { w with cloud, line, files, journal }
  listed : Matched (R w.pinned) (w.answer resourceGroup .scaleSets)
    (w'.answer resourceGroup .scaleSets)
  members : ∀ name, w'.answer resourceGroup (.members name) = w.answer resourceGroup (.members name)
  lag : ∀ q, w'.lag q = w.lag q

namespace World.Aligned

variable {R : List String → List ScaleSet → List ScaleSet → Prop} {resourceGroup : String}
  {w w' v v' : World α}

theorem now (h : w.Aligned R resourceGroup w') : w'.now = w.now := by
  obtain ⟨⟨cloud, line, files, journal, rfl⟩, -⟩ := h
  rfl

theorem registry (h : w.Aligned R resourceGroup w') : w'.registry = w.registry := by
  obtain ⟨⟨cloud, line, files, journal, rfl⟩, -⟩ := h
  rfl

theorem pinned (h : w.Aligned R resourceGroup w') : w'.pinned = w.pinned := by
  obtain ⟨⟨cloud, line, files, journal, rfl⟩, -⟩ := h
  rfl

theorem cells (h : w.Aligned R resourceGroup w') : w'.cells = w.cells := by
  obtain ⟨⟨cloud, line, files, journal, rfl⟩, -⟩ := h
  rfl

theorem gate (h : w.Aligned R resourceGroup w') : w'.gate = w.gate := by
  obtain ⟨⟨cloud, line, files, journal, rfl⟩, -⟩ := h
  rfl

/-- Calls and tokens make no difference if they leave the same tokens. -/
theorem queried (h : w.Aligned R resourceGroup w') (hw : Queried w v) (hw' : Queried w' v')
    (hquotas : v'.quotas = v.quotas) : v.Aligned R resourceGroup v' := by
  obtain ⟨⟨cloud, line, files, journal, rfl⟩, hlisted, hmembers, hlag⟩ := h
  obtain ⟨⟨cloud₁, quotas₁, rfl⟩, hanswers, hlag₁⟩ := hw
  obtain ⟨⟨cloud₂, quotas₂, rfl⟩, hanswers', hlag₂⟩ := hw'
  obtain rfl : quotas₂ = quotas₁ := hquotas
  refine ⟨⟨cloud₂, line, files, journal, rfl⟩, ?_, fun name ↦ ?_, fun q ↦ ?_⟩
  · rw [hanswers, hanswers']
    exact hlisted
  · rw [hanswers, hanswers', hmembers]
  · rw [hlag₁, hlag₂, hlag]

theorem elapse (h : w.Aligned R resourceGroup w') (millis : Nat) :
    ({ w with now := w.now + millis } : World α).Aligned R resourceGroup
      { w' with now := w'.now + millis } := by
  obtain ⟨⟨cloud, line, files, journal, rfl⟩, hlisted, hmembers, hlag⟩ := h
  exact ⟨⟨cloud, line, files, journal, rfl⟩, hlisted, hmembers, hlag⟩

variable [Balance α]

theorem draw (h : w.Aligned R resourceGroup w') (q : Query) :
    (w'.draw q).2 = (w.draw q).2 ∧ (w.draw q).1.Aligned R resourceGroup (w'.draw q).1 := by
  have hqueried := (w.drawn_draw q).1.queried
  have hqueried' := (w'.drawn_draw q).1.queried
  have hsame : (w'.draw q).2 = (w.draw q).2 ∧ (w'.draw q).1.quotas = (w.draw q).1.quotas := by
    obtain ⟨⟨cloud', line', files', journal', rfl⟩, -⟩ := h
    rcases w with ⟨now, cloud, line, files, _ | quotas, cells, registry, pinned, _, _, _⟩
    · exact ⟨rfl, rfl⟩
    · exact ⟨rfl, rfl⟩
  exact ⟨hsame.1, h.queried hqueried hqueried' hsame.2⟩

omit [Balance α] in
theorem ask (h : w.Aligned R resourceGroup w') (q : Query) :
    (w'.ask q).2 = (w.ask q).2 ∧ (w.ask q).1.Aligned R resourceGroup (w'.ask q).1 := by
  obtain ⟨hdue, hqueried, hquotas⟩ := w.ask_spec q
  obtain ⟨hdue', hqueried', hquotas'⟩ := w'.ask_spec q
  refine ⟨by rw [hdue, hdue', h.now, h.lag], h.queried hqueried hqueried' ?_⟩
  obtain ⟨⟨cloud, line, files, journal, rfl⟩, -⟩ := h
  exact hquotas'.trans hquotas.symm

/-- What each of two runs gets from its own inventory. -/
def Own (resourceGroup : String) (w w' : World α) (q : Query) (r r' : Except CloudError q.Answer) :
    Prop :=
  r = w.answer resourceGroup q ∧ r' = w'.answer resourceGroup q

omit [Balance α] in
theorem collect (h : w.Aligned R resourceGroup w') (q : Query) (due : Nat) :
    Paired (World.Aligned R resourceGroup) Eq (Own resourceGroup w w' q)
      (w.collect resourceGroup q due) (w'.collect resourceGroup q due) := by
  unfold World.collect
  rw [h.now]
  split_ifs
  · exact .finished h ⟨rfl, rfl⟩
  · exact .waiting h rfl

theorem attempt (h : w.Aligned R resourceGroup w') (q : Query) :
    Paired (World.Aligned R resourceGroup) Eq (Own resourceGroup w w' q)
      (w.attempt resourceGroup q) (w'.attempt resourceGroup q) := by
  obtain ⟨hwake, hdrawn⟩ := h.draw q
  have hanswers := (w.inquired_draw q).2 resourceGroup q
  have hanswers' := (w'.inquired_draw q).2 resourceGroup q
  unfold World.attempt
  rcases hdraw : w.draw q with ⟨v, wake⟩
  rcases hdraw' : w'.draw q with ⟨v', wake'⟩
  rw [hdraw] at hwake hdrawn hanswers
  rw [hdraw'] at hwake hdrawn hanswers'
  obtain rfl : wake' = wake := hwake
  cases wake' with
  | some wake => exact .waiting hdrawn rfl
  | none =>
    obtain ⟨hdue, hasked⟩ := hdrawn.ask q
    have hcollects := hasked.collect q (v.ask q).2
    unfold Own at hcollects ⊢
    rw [(v.inquired_ask q).2, (v'.inquired_ask q).2, hanswers, hanswers'] at hcollects
    dsimp only
    rw [hdue]
    exact hcollects

theorem pollCall (h : w.Aligned R resourceGroup w') (q : Query) (phase : CallPhase) :
    Paired (World.Aligned R resourceGroup) Eq (Own resourceGroup w w' q)
      (w.pollCall resourceGroup q phase) (w'.pollCall resourceGroup q phase) := by
  cases phase with
  | fresh => exact h.attempt q
  | throttled wake =>
    dsimp only [World.pollCall]
    rw [h.now]
    split_ifs
    · exact h.attempt q
    · exact .waiting h rfl
  | underWay due => exact h.collect q due

variable {site : Site} {i : Inquiry}

theorem pollInquiry (h : w.Aligned R site.resourceGroup w') (q : Query) (i : Inquiry) :
    Paired (World.Aligned R site.resourceGroup) Eq
      (fun r r' ↦ r = w.reply site q ∧ r' = w'.reply site q ∨
        r = .error (.deadlineExceeded q site.inventoryTimeout) ∧ r' = r)
      (w.pollInquiry site q i) (w'.pollInquiry site q i) := by
  have hcalls := h.pollCall q i.phase
  unfold World.pollInquiry World.reply
  generalize w.pollCall site.resourceGroup q i.phase = call at hcalls
  generalize w'.pollCall site.resourceGroup q i.phase = call' at hcalls
  cases hcalls with
  | @waiting v v' phase phase' hv hphase =>
    obtain rfl := hphase
    dsimp only
    rw [hv.now]
    split_ifs
    · exact .finished hv (Or.inr ⟨rfl, rfl⟩)
    · exact .waiting hv rfl
  | finished hv hr =>
    obtain ⟨rfl, rfl⟩ := hr
    cases w.answer site.resourceGroup q <;> cases w'.answer site.resourceGroup q <;>
      exact .finished hv (Or.inl ⟨rfl, rfl⟩)

theorem pollScaleSets (h : w.Aligned R site.resourceGroup w') (i : Inquiry) :
    Paired (World.Aligned R site.resourceGroup) Eq
      (Matched (R w.pinned))
      (w.pollInquiry site .scaleSets i) (w'.pollInquiry site .scaleSets i) := by
  refine (h.pollInquiry .scaleSets i).imp fun r r' hr ↦ ?_
  rcases hr with ⟨rfl, rfl⟩ | ⟨rfl, rfl⟩
  · have hlisted := h.listed
    unfold World.reply
    generalize w.answer site.resourceGroup .scaleSets = answer at hlisted
    generalize w'.answer site.resourceGroup .scaleSets = answer' at hlisted
    cases hlisted with
    | ok hlistings => exact .ok hlistings
    | error e => exact .error _
  · exact .error _

theorem pollMembers (h : w.Aligned R site.resourceGroup w') (g : NodeGroup) (l : Listing) :
    (w.pollMembers site g l).1.Aligned R site.resourceGroup (w'.pollMembers site g l).1 ∧
      (w'.pollMembers site g l).2 = (w.pollMembers site g l).2 := by
  cases l with
  | arrived answer => exact ⟨h, rfl⟩
  | waiting i =>
    have hinquiries := h.pollInquiry (.members g.name) i
    unfold World.reply at hinquiries
    rw [h.members] at hinquiries
    dsimp only [World.pollMembers]
    generalize w.pollInquiry site (.members g.name) i = inquiry at hinquiries
    generalize w'.pollInquiry site (.members g.name) i = inquiry' at hinquiries
    cases hinquiries with
    | waiting hv hi =>
      obtain rfl := hi
      exact ⟨hv, rfl⟩
    | finished hv hr =>
      rcases hr with ⟨rfl, rfl⟩ | ⟨rfl, rfl⟩
      · exact ⟨hv, rfl⟩
      · exact ⟨hv, rfl⟩

theorem pollListings (h : w.Aligned R site.resourceGroup w') (groups : List NodeGroup)
    (listings : List Listing) :
    (w.pollListings site groups listings).1.Aligned R site.resourceGroup
        (w'.pollListings site groups listings).1 ∧
      (w'.pollListings site groups listings).2 = (w.pollListings site groups listings).2 := by
  induction groups generalizing w w' listings with
  | nil => exact ⟨h, rfl⟩
  | cons g rest ih =>
    cases listings with
    | nil => exact ⟨h, rfl⟩
    | cons l later =>
      obtain ⟨hv, hl⟩ := h.pollMembers g l
      unfold World.pollListings
      rcases hpoll : w.pollMembers site g l with ⟨v, l₁⟩
      rcases hpoll' : w'.pollMembers site g l with ⟨v', l₁'⟩
      rw [hpoll, hpoll'] at hv hl
      obtain rfl : l₁' = l₁ := hl
      dsimp only at hv ⊢
      split_ifs
      · exact ⟨hv, rfl⟩
      · obtain ⟨hlast, hlistings⟩ := ih hv later
        exact ⟨hlast, congrArg (l₁' :: ·) hlistings⟩

end World.Aligned

/-! ### Cycles -/

/-- Phases that differ at most in what goes into the journal, and in which nothing is
to be pinned. -/
inductive CyclePhase.Aligned : CyclePhase → CyclePhase → Prop
  | queued : CyclePhase.Aligned .queued .queued
  | listing (i : Inquiry) : CyclePhase.Aligned (.listing i) (.listing i)
  | indexing {b b' : Brief} {plan : Plan} (listings : List Listing) : b'.ticket = b.ticket →
      plan.pins = [] → CyclePhase.Aligned (.indexing b plan listings) (.indexing b' plan listings)

/-- Worlds on which an auto discovery of the site selects alike. -/
abbrev World.Akin (site : Site) : World α → World α → Prop :=
  World.Aligned (SelectedAlike site.selectors) site.resourceGroup

namespace World.Aligned

variable {R : List String → List ScaleSet → List ScaleSet → Prop} {site : Site} {w w' : World α}

theorem joinGate (h : w.Aligned R site.resourceGroup w') (t : Ticket) :
    (w.joinGate t).Aligned R site.resourceGroup (w'.joinGate t) := by
  obtain ⟨⟨cloud, line, files, journal, rfl⟩, hlisted, hmembers, hlag⟩ := h
  exact ⟨⟨cloud, line, files, journal, rfl⟩, hlisted, hmembers, hlag⟩

theorem journal (h : w.Aligned R site.resourceGroup w') (journal journal' : Journal) :
    ({ w with journal } : World α).Aligned R site.resourceGroup
      { w' with journal := journal' } := by
  obtain ⟨⟨cloud, line, files, kept, rfl⟩, hlisted, hmembers, hlag⟩ := h
  exact ⟨⟨cloud, line, files, journal', rfl⟩, hlisted, hmembers, hlag⟩

theorem leaveGate (h : w.Aligned R site.resourceGroup w') {b b' : Brief} (hb : b'.ticket = b.ticket)
    (told told' : List (String × Except Error (List Member)))
    (installed installed' : Option Snapshot) (result result' : Except Error Unit) :
    (w.leaveGate b told installed result).Aligned R site.resourceGroup
      (w'.leaveGate b' told' installed' result') := by
  obtain ⟨⟨cloud, line, files, journal, rfl⟩, hlisted, hmembers, hlag⟩ := h
  refine ⟨⟨cloud, line, files, journal.close b' told' installed' result', ?_⟩, hlisted, hmembers,
    hlag⟩
  unfold World.leaveGate
  rw [hb]

theorem install (h : w.Aligned R site.resourceGroup w') {plan : Plan} (hpins : plan.pins = [])
    (index : Table String) :
    (w.install plan index).Aligned R site.resourceGroup (w'.install plan index) := by
  obtain ⟨⟨cloud, line, files, journal, rfl⟩, hlisted, hmembers, hlag⟩ := h
  refine ⟨⟨cloud, line, files, journal, rfl⟩, ?_, hmembers, hlag⟩
  show Matched (R (w.pinned ++ plan.pins.filter (· ∉ w.pinned))) _ _
  rw [hpins, List.filter_nil, List.append_nil]
  exact hlisted

theorem newGroups {candidates candidates' : List Candidate}
    (hlength : candidates'.length = candidates.length) (h : w.Aligned R site.resourceGroup w') :
    (w.newGroups candidates).1.Aligned R site.resourceGroup (w'.newGroups candidates').1 := by
  induction candidates generalizing w w' candidates' with
  | nil =>
    obtain rfl := List.length_eq_zero_iff.mp hlength
    exact h
  | cons c rest ih =>
    obtain ⟨c', rest', rfl⟩ := List.exists_cons_of_length_eq_add_one hlength
    have hfirst : (w.newGroup c defaultSizePeriod).1.Aligned R site.resourceGroup
        (w'.newGroup c' defaultSizePeriod).1 := by
      obtain ⟨⟨cloud, line, files, journal, rfl⟩, hlisted, hmembers, hlag⟩ := h
      exact ⟨⟨cloud, line, files, journal, rfl⟩, hlisted, hmembers, hlag⟩
    show ((w.newGroup c defaultSizePeriod).1.newGroups rest).1.Aligned R site.resourceGroup
      ((w'.newGroup c' defaultSizePeriod).1.newGroups rest').1
    exact ih (Nat.succ.inj hlength) hfirst

variable [Balance α]

theorem pollIndexing (h : w.Aligned R site.resourceGroup w') {b b' : Brief}
    (hb : b'.ticket = b.ticket) {plan : Plan} (hpins : plan.pins = []) (listings : List Listing) :
    Paired (World.Aligned R site.resourceGroup) CyclePhase.Aligned Eq
      (w.pollIndexing site b plan listings) (w'.pollIndexing site b' plan listings) := by
  obtain ⟨hv, hlistings⟩ := h.pollListings plan.groups listings
  unfold World.pollIndexing
  rcases hpoll : w.pollListings site plan.groups listings with ⟨v, told⟩
  rcases hpoll' : w'.pollListings site plan.groups listings with ⟨v', told'⟩
  rw [hpoll, hpoll'] at hv hlistings
  obtain rfl : told' = told := hlistings
  dsimp only
  cases told'.findSome? Listing.failure? with
  | some e => exact .finished (hv.leaveGate hb _ _ _ _ _ _) rfl
  | none =>
    cases gathered? plan.groups told' with
    | none => exact .waiting hv (.indexing told' hb hpins)
    | some members => exact .finished ((hv.install hpins _).leaveGate hb _ _ _ _ _ _) rfl

/-- An auto discovery goes on alike from listings that are selected from alike. -/
theorem planCycle (h : w.Akin site w') (t : Ticket)
    {listed listed' : Except Error (List ScaleSet)}
    (hlisted : Matched (SelectedAlike site.selectors w.pinned) listed listed') :
    Paired (World.Akin site) CyclePhase.Aligned Eq
      (w.planCycle site t .auto listed) (w'.planCycle site t .auto listed') := by
  have hsettled := h.journal w.journal.settle w'.journal.settle
  have hcandidates : Matched (List.Forall₂ (Candidate.Retagged w.pinned))
      (listed.bind fun l ↦ Cycle.candidates site l .auto)
      (listed'.bind fun l ↦ Cycle.candidates site l .auto) := by
    cases hlisted with
    | ok hselected => exact hselected
    | error e => exact .error e
  unfold World.planCycle
  dsimp only
  generalize (listed.bind fun l ↦ Cycle.candidates site l .auto) = made at hcandidates
  generalize (listed'.bind fun l ↦ Cycle.candidates site l .auto) = made' at hcandidates
  cases hcandidates with
  | error e =>
    refine .finished (hsettled.leaveGate ?_ _ _ _ _ _ _) rfl
    rfl
  | @ok candidates candidates' hretagged =>
    -- there are as many candidates, so the handles get the same serial numbers
    have hgroups := hsettled.newGroups hretagged.length_eq.symm
    obtain ⟨cells, hnew⟩ :=
      ({ w with journal := w.journal.settle } : World α).inquired_newGroups candidates
    obtain ⟨cells', hnew'⟩ :=
      ({ w' with journal := w'.journal.settle } : World α).inquired_newGroups candidates'
    rw [hnew, hnew'] at hgroups
    dsimp only
    rw [hnew, hnew']
    dsimp only at hgroups ⊢
    have hplan : Cycle.plan w'.registry w'.pinned (handles w'.cells.size candidates') .auto =
        Cycle.plan w.registry w.pinned (handles w.cells.size candidates) .auto := by
      rw [h.registry, h.pinned, h.cells]
      exact plan_of_retagged (retagged_handles hretagged w.cells.size) w.registry
    have hstart : Inquiry.start site w'.now = .start site w.now := congrArg _ h.now
    rw [hplan, hstart]
    refine hgroups.pollIndexing ?_ ?_ _
    · rfl
    · rfl

theorem pollListing (h : w.Akin site w') (t : Ticket) (i : Inquiry) :
    Paired (World.Akin site) CyclePhase.Aligned Eq (w.pollListing site t .auto i)
      (w'.pollListing site t .auto i) := by
  have hpinned := (World.asking_inquired.pollInquiry w site .scaleSets i).pinned
  have hinquiries := h.pollScaleSets i
  unfold World.pollListing
  generalize w.pollInquiry site .scaleSets i = inquiry at hinquiries hpinned
  generalize w'.pollInquiry site .scaleSets i = inquiry' at hinquiries
  cases hinquiries with
  | waiting hv hi =>
    obtain rfl := hi
    exact .waiting hv (.listing _)
  | finished hv hlisted =>
    rw [← hpinned] at hlisted
    exact hv.planCycle t hlisted

theorem pollCycle (h : w.Akin site w') (t : Ticket) {phase phase' : CyclePhase}
    (hphase : phase.Aligned phase') :
    Paired (World.Akin site) CyclePhase.Aligned Eq (w.pollCycle site t .auto phase)
      (w'.pollCycle site t .auto phase') := by
  cases hphase with
  | listing i => exact h.pollListing t i
  | indexing listings hb hpins => exact h.pollIndexing hb hpins listings
  | queued =>
    have hgiven := h.journal (w.journal.giveGate t) (w'.journal.giveGate t)
    have hgate : w'.hasGate t = w.hasGate t := congrArg (·.head? == some t) h.gate
    have hstart : Inquiry.start site w'.now = .start site w.now := congrArg _ h.now
    have hnothing : SelectedAlike site.selectors w.pinned [] [] := Matched.ok List.Forall₂.nil
    dsimp only [World.pollCycle]
    rw [hgate, hstart]
    split_ifs
    · exact hgiven.pollListing t _
    · exact hgiven.planCycle t (.ok hnothing)
    · exact .waiting h .queued

theorem startCycle (h : w.Akin site w') (t : Ticket) :
    Paired (World.Akin site) CyclePhase.Aligned Eq (w.startCycle site t .auto)
      (w'.startCycle site t .auto) :=
  (h.joinGate t).pollCycle t .queued

end World.Aligned

end NodeFleet.Fleet
