import NodeFleet.Proofs.Gate
/-!
Cycles carried on. One poll of a cycle leaves it waiting with what it knows intact, or ends it with
a turn in the journal; it disturbs no other cycle and writes nothing directly. Whatever an activity
does with cycles is made of such polls.
-/

set_option autoImplicit false
set_option relaxedAutoImplicit false

namespace NodeFleet.Fleet

open NodeFleet.Discovery NodeFleet.Quota

namespace Turn

variable {H : Lore} {site : Site} {planned ended : Books} {t : Turn}

theorem listing_inventory (h : t.brief.Heard H site) :
    t.brief.cycle.listing site t.inventory = t.brief.listed := by
  obtain ⟨-, hlisted⟩ := h
  unfold Cycle.listing
  split_ifs at hlisted ⊢
  · rfl
  · exact hlisted.symm

theorem faithful_of_error {e : Error} (ho : t.outcome site planned = .error e)
    (hr : t.result = .error e) (hi : t.installed = none) : t.Faithful site planned ended := by
  unfold Faithful
  rw [ho]
  exact ⟨hr, hi⟩

theorem faithful_of_ok {plan : Plan} {index : Table String}
    (ho : t.outcome site planned = .ok (plan, index)) (hr : t.result = .ok ())
    (hi : t.installed = plan.installed? ended.registry index)
    (ht : t.told.map Prod.fst = plan.groups.map NodeGroup.name) :
    t.Faithful site planned ended := by
  unfold Faithful
  rw [ho]
  exact ⟨hr, hi, ht⟩

theorem effect_of_error {e : Error} (ho : t.outcome site planned = .error e) :
    t.effect site planned ended = ended := by
  unfold effect
  rw [ho]

theorem effect_of_ok {plan : Plan} {index : Table String}
    (ho : t.outcome site planned = .ok (plan, index)) :
    t.effect site planned ended = ended.install plan index := by
  unfold effect
  rw [ho]

theorem outcome_of_bad_listing (h : t.brief.Heard H site) {e : Error}
    (he : (t.brief.listed.bind fun l ↦ t.brief.cycle.candidates site l) = .error e) (b : Books) :
    t.outcome site b = .error e := by
  unfold outcome Cycle.outcome
  rw [listing_inventory h, he]

end Turn

/-- What a cycle has planned on the books of the journal, and what it has heard since. -/
structure Planned (H : Lore) (site : Site) (j : Journal) (b : Brief) (plan : Plan)
    (listings : List Listing) : Prop where
  heard : b.Heard H site
  planned : ∃ candidates, (b.listed.bind fun l ↦ b.cycle.candidates site l) = .ok candidates ∧
    plan = b.cycle.plan (j.planned site).registry (j.planned site).pinned
      (handles b.serial candidates)
  listings : List.Forall₂ (Listing.Heard H b.ticket) plan.groups listings

namespace Planned

variable {H : Lore} {site : Site} {j : Journal} {b : Brief} {plan : Plan}
  {listings : List Listing} {t : Turn}

theorem shows (h : Planned H site j b plan listings)
    (hd : Distinct (j.planned site).registry.groups) (ht : t.told = told plan.groups listings) :
    List.Forall₂ t.inventory.Shows plan.groups listings := by
  obtain ⟨candidates, -, rfl⟩ := h.planned
  exact shows_inventory ht (distinct_plan _ hd _ _) h.listings.length_eq

theorem outcome_of_failure (h : Planned H site j t.brief plan listings)
    (hd : Distinct (j.planned site).registry.groups) (ht : t.told = told plan.groups listings)
    {e : Error} (he : listings.findSome? Listing.failure? = some e) :
    t.outcome site (j.planned site) = .error e := by
  have hgather := gather_of_failure (h.shows hd ht) he
  obtain ⟨candidates, hcandidates, rfl⟩ := h.planned
  unfold Turn.outcome Cycle.outcome
  rw [Turn.listing_inventory h.heard, hcandidates]
  dsimp only
  rw [hgather]
  rfl

theorem outcome_of_gathered (h : Planned H site j t.brief plan listings)
    (hd : Distinct (j.planned site).registry.groups) (ht : t.told = told plan.groups listings)
    {members : List (String × List Member)} (hm : gathered? plan.groups listings = some members) :
    t.outcome site (j.planned site) = .ok (plan, memberIndex members) := by
  have hgather := gather_of_gathered (h.shows hd ht) hm
  obtain ⟨candidates, hcandidates, hplan⟩ := h.planned
  refine Cycle.outcome_eq_ok.mpr ⟨candidates, members, ?_, hplan, hgather, rfl⟩
  rw [Turn.listing_inventory h.heard]
  exact hcandidates

end Planned

/-- What a waiting cycle of the ticket may rely on. -/
def CyclePhase.Sound (H : Lore) (site : Site) (j : Journal) (t : Ticket) (cycle : Cycle) :
    CyclePhase → Prop
  | queued => ¬ j.HeldBy t
  | listing _ => j.HeldBy t ∧ cycle.needsListing site = true
  | indexing b plan listings =>
    j.HeldBy t ∧ b.ticket = t ∧ b.cycle = cycle ∧ Planned H site j b plan listings

theorem CyclePhase.Sound.undisturbed {H : Lore} {site : Site} {j j' : Journal} {t : Ticket}
    {cycle : Cycle} {phase : CyclePhase} (h : phase.Sound H site j t cycle)
    (hu : j.Undisturbed j' t) : phase.Sound H site j' t cycle := by
  cases phase with
  | queued => exact fun ht ↦ h (hu.1.mp ht)
  | listing i => exact ⟨hu.1.mpr h.1, h.2⟩
  | indexing b plan listings =>
    obtain ⟨hheld, hticket, hcycle, hplanned⟩ := h
    refine ⟨hu.1.mpr hheld, hticket, hcycle, hplanned.heard, ?_, hplanned.listings⟩
    unfold Journal.planned
    rw [hu.2 hheld]
    exact hplanned.planned

/-- A cycle that does not queue has the gate. -/
theorem CyclePhase.Sound.heldBy {H : Lore} {site : Site} {j : Journal} {t : Ticket} {cycle : Cycle}
    {phase : CyclePhase} (h : phase.Sound H site j t cycle) (hphase : phase ≠ .queued) :
    j.HeldBy t := by
  cases phase with
  | queued => exact absurd rfl hphase
  | listing i => exact h.1
  | indexing b plan listings => exact h.1

/-- Where a poll leaves a cycle of the ticket. -/
def Reached (H : Lore) (site : Site) (j j' : Journal) (t : Ticket) (cycle : Cycle) :
    Progress CyclePhase (Except Error Unit) → Prop
  | .waiting phase => phase.Sound H site j' t cycle ∧ j'.turns = j.turns
  | .finished result => j'.Free ∧ ∃ turn, j'.turns = j.turns ++ [turn] ∧
      turn.brief.ticket = t ∧ turn.brief.cycle = cycle ∧ turn.result = result

variable {α : Type}

/-- What steps of the ticket's activity leave alone; the turns that they enter are its own. -/
structure World.Moved (t : Ticket) (w w' : World α) : Prop where
  answers : ∀ resourceGroup q, w'.answer resourceGroup q = w.answer resourceGroup q
  line : w'.line = w.line
  others : ∀ t', t' ≠ t → w.journal.Undisturbed w'.journal t'
  writes : w'.journal.writes = w.journal.writes
  turns : ∃ entered, w'.journal.turns = w.journal.turns ++ entered ∧
    ∀ x ∈ entered, x.brief.ticket = t

namespace World.Moved

variable {t : Ticket} {w w' w'' : World α}

/-- A step that enters no turn. -/
theorem of_turns
    (hanswers : ∀ resourceGroup q, w'.answer resourceGroup q = w.answer resourceGroup q)
    (hline : w'.line = w.line) (hothers : ∀ t', t' ≠ t → w.journal.Undisturbed w'.journal t')
    (hwrites : w'.journal.writes = w.journal.writes)
    (hturns : w'.journal.turns = w.journal.turns) : Moved t w w' :=
  ⟨hanswers, hline, hothers, hwrites, [], hturns.trans (List.append_nil _).symm,
    fun _ hx ↦ absurd hx List.not_mem_nil⟩

/-- A step that the journal does not show. -/
theorem of_journal
    (hanswers : ∀ resourceGroup q, w'.answer resourceGroup q = w.answer resourceGroup q)
    (hline : w'.line = w.line) (hjournal : w'.journal = w.journal) : Moved t w w' := by
  refine .of_turns hanswers hline ?_ (congrArg Journal.writes hjournal)
    (congrArg Journal.turns hjournal)
  intro t' _
  rw [hjournal]
  exact .refl _ t'

theorem refl (t : Ticket) (w : World α) : Moved t w w :=
  of_journal (fun _ _ ↦ rfl) rfl rfl

theorem of_inquired (h : Inquired w w') : Moved t w w' :=
  of_journal h.2 h.line h.journal

theorem trans (h : Moved t w w') (h' : Moved t w' w'') : Moved t w w'' := by
  obtain ⟨first, hfirst, howned⟩ := h.turns
  obtain ⟨second, hsecond, howned'⟩ := h'.turns
  refine ⟨fun resourceGroup q ↦ (h'.answers _ q).trans (h.answers resourceGroup q),
    h'.line.trans h.line, fun t' ht' ↦ (h.others t' ht').trans (h'.others t' ht'),
    h'.writes.trans h.writes, first ++ second, ?_, ?_⟩
  · rw [hsecond, hfirst, List.append_assoc]
  · exact fun x hx ↦ (List.mem_append.mp hx).elim (howned x) (howned' x)

end World.Moved

/-- What carrying a cycle on comes to. -/
structure Carried (H : Lore) (site : Site) (t : Ticket) (cycle : Cycle) (w : World α)
    (r : World α × Progress CyclePhase (Except Error Unit)) : Prop where
  kept : r.1.Kept H site
  moved : World.Moved t w r.1
  reached : Reached H site w.journal r.1.journal t cycle r.2

variable {H : Lore} {site : Site} {t : Ticket} {cycle : Cycle} {w w' : World α}
  {r : World α × Progress CyclePhase (Except Error Unit)}

/-- A step before a poll that makes no turn and disturbs nobody. -/
theorem Carried.of_step (h : Carried H site t cycle w' r) (hm : World.Moved t w w')
    (hturns : w'.journal.turns = w.journal.turns) : Carried H site t cycle w r := by
  refine ⟨h.kept, hm.trans h.moved, ?_⟩
  have hreached := h.reached
  rcases r with ⟨w'', phase | result⟩
  · exact ⟨hreached.1, hreached.2.trans hturns⟩
  · obtain ⟨hfree, turn, hturn, hrest⟩ := hreached
    exact ⟨hfree, turn, by rw [hturn, hturns], hrest⟩

theorem Carried.of_inquired (h : Carried H site t cycle w' r) (hi : World.Inquired w w') :
    Carried H site t cycle w r :=
  h.of_step (.of_inquired hi) (congrArg Journal.turns hi.journal)

/-- The holder of the gate ends its cycle as one that ran alone. -/
theorem World.Kept.carried_leaveGate (h : w.Kept H site) {b : Brief}
    (hheld : w.journal.HeldBy b.ticket) {told : List (String × Except Error (List Member))}
    {installed : Option Snapshot} {result : Except Error Unit} (hb : b.Heard H site)
    (htold : ∀ e ∈ told, H.told b.ticket (.members e.1) e.2)
    (hf : Turn.Faithful site (w.journal.planned site) w.books
      ⟨b, told, w.journal.pending, installed, result⟩)
    (hanswers : ∀ resourceGroup q, w'.answer resourceGroup q = w.answer resourceGroup q)
    (hline : w'.line = w.line) (hj : w'.journal = w.journal)
    (hbooks : w'.books = Turn.effect site (w.journal.planned site) w.books
      ⟨b, told, w.journal.pending, installed, result⟩) :
    Carried H site b.ticket b.cycle w
      (w'.leaveGate b told installed result, .finished result) := by
  have hclosed : (w'.leaveGate b told installed result).journal =
      w.journal.close b told installed result := by
    rw [← hj]
    rfl
  have hfree := hheld.close told installed result
  refine ⟨h.leaveGate hheld hb htold hf hj hbooks, ⟨hanswers, hline, ?_, ?_, ?_⟩, ?_⟩
  · intro t' ht'
    rw [hclosed]
    exact Journal.undisturbed_of_ne (Or.inr hheld) (Or.inl hfree) ht'
  · rw [hclosed]
    exact Journal.writes_close ..
  · rw [hclosed]
    refine ⟨_, Journal.turns_close .., ?_⟩
    rintro x hx
    obtain rfl := List.mem_singleton.mp hx
    rfl
  · dsimp only
    rw [hclosed]
    exact ⟨hfree, _, Journal.turns_close .., rfl, rfl, rfl⟩

/-- Noting a refresh leaves the cycle as it is. -/
theorem Carried.noted (h : Carried H site t cycle w r) :
    Carried H site t cycle w (World.noted r) := by
  rcases r with ⟨w', phase | e | ⟨⟩⟩
  · exact h
  · exact h
  · exact ⟨⟨h.kept.orderly, h.kept.books, h.kept.faithful, h.kept.heard, h.kept.gate⟩,
      h.moved.trans (.of_journal (fun _ _ ↦ rfl) rfl rfl), h.reached⟩

variable [Balance α]

/-! ### Polls of a cycle -/

theorem carried_pollIndexing (h : w.Kept H site) {b : Brief}
    (htells : ∀ q r, w.Tells site q r → H.told b.ticket q r)
    (hheld : w.journal.HeldBy b.ticket) {plan : Plan} {listings : List Listing}
    (hp : Planned H site w.journal b plan listings) :
    Carried H site b.ticket b.cycle w (w.pollIndexing site b plan listings) := by
  have hasked := World.asking_inquired.pollListings w site plan.groups listings
  have hheard := World.heard_pollListings htells hp.listings
  unfold World.pollIndexing
  rcases hpoll : w.pollListings site plan.groups listings with ⟨w', listings'⟩
  rw [hpoll] at hasked hheard
  have hp' : Planned H site w'.journal b plan listings' := by
    rw [hasked.journal]
    exact ⟨hp.heard, hp.planned, hheard⟩
  have hkept' : w'.Kept H site := h.inquired hasked
  have hheld' : w'.journal.HeldBy b.ticket := by
    rw [hasked.journal]
    exact hheld
  have htold : ∀ e ∈ told plan.groups listings', H.told b.ticket (.members e.1) e.2 := fun e he ↦
    heard_of_mem_told hheard he
  dsimp only
  refine (?_ : Carried H site b.ticket b.cycle w' _).of_inquired hasked
  cases hfailure : listings'.findSome? Listing.failure? with
  | some e =>
    have houtcome := hp'.outcome_of_failure (t := ⟨b, told plan.groups listings',
      w'.journal.pending, none, .error e⟩) hkept'.distinct_planned rfl hfailure
    exact hkept'.carried_leaveGate hheld' hp.heard htold
      (Turn.faithful_of_error houtcome rfl rfl) (fun _ _ ↦ rfl) rfl rfl
      (Turn.effect_of_error houtcome).symm
  | none =>
    cases hgathered : gathered? plan.groups listings' with
    | none =>
      exact ⟨hkept', .refl _ w', ⟨hheld', rfl, rfl, hp'⟩, rfl⟩
    | some members =>
      have houtcome := hp'.outcome_of_gathered (t := ⟨b, told plan.groups listings',
        w'.journal.pending, plan.installed? w'.registry (memberIndex members), .ok ()⟩)
        hkept'.distinct_planned rfl hgathered
      have hinstalled : (w'.install plan (memberIndex members)).books =
          w'.books.install plan (memberIndex members) := rfl
      exact hkept'.carried_leaveGate hheld' hp.heard htold
        (Turn.faithful_of_ok houtcome rfl rfl (names_told hheard hgathered)) (fun _ _ ↦ rfl) rfl
        rfl (hinstalled.trans (Turn.effect_of_ok houtcome).symm)

theorem carried_planCycle (h : w.Kept H site) (htells : ∀ q r, w.Tells site q r → H.told t q r)
    (hheld : w.journal.HeldBy t) {listed : Except Error (List ScaleSet)}
    (hb : (⟨t, cycle, listed, w.cells.size⟩ : Brief).Heard H site) :
    Carried H site t cycle w (w.planCycle site t cycle listed) := by
  have hsettled := h.settle
  refine (?_ : Carried H site t cycle { w with journal := w.journal.settle } _).of_step
    (.of_turns (fun _ _ ↦ rfl) rfl ?_ w.journal.writes_settle w.journal.turns_settle)
    w.journal.turns_settle
  · unfold World.planCycle
    dsimp only
    cases hcandidates : listed.bind fun l ↦ cycle.candidates site l with
    | error e =>
      have houtcome : ∀ books : Books,
          Turn.outcome site books ⟨⟨t, cycle, listed, w.cells.size⟩, [],
            w.journal.settle.pending, none, .error e⟩ = .error e :=
        fun books ↦ Turn.outcome_of_bad_listing hb hcandidates books
      exact hsettled.carried_leaveGate (b := ⟨t, cycle, listed, w.cells.size⟩) hheld.settle hb
        (fun e he ↦ absurd he List.not_mem_nil)
        (Turn.faithful_of_error (houtcome _) rfl rfl) (fun _ _ ↦ rfl) rfl rfl
        (Turn.effect_of_error (houtcome _)).symm
    | ok candidates =>
      dsimp only
      obtain ⟨cells, hnew⟩ :=
        ({ w with journal := w.journal.settle } : World α).inquired_newGroups candidates
      rw [hnew]
      have hasked : World.Inquired ({ w with journal := w.journal.settle } : World α)
          { w with cells, journal := w.journal.settle } := World.inquired_cells _ cells
      have hplanned : w.journal.settle.planned site = w.books :=
        (w.journal.planned_settle site).trans h.books.symm
      refine (?_ : Carried H site t cycle { w with cells, journal := w.journal.settle }
        _).of_inquired hasked
      refine carried_pollIndexing (b := ⟨t, cycle, listed, w.cells.size⟩)
        (hsettled.inquired hasked) (fun q r hr ↦ htells q r hr) hheld.settle
        ⟨hb, ⟨candidates, hcandidates, ?_⟩, ?_⟩
      · rw [hplanned]
        rfl
      · rw [List.forall₂_map_right_iff, List.forall₂_same]
        intro g _
        trivial
  · intro t' ht'
    exact Journal.undisturbed_of_ne (Or.inr hheld) (Or.inr hheld.settle) ht'

theorem carried_pollListing (h : w.Kept H site) (htells : ∀ q r, w.Tells site q r → H.told t q r)
    (hasks : H.asked t cycle) (hheld : w.journal.HeldBy t)
    (hneeds : cycle.needsListing site = true) (i : Inquiry) :
    Carried H site t cycle w (w.pollListing site t cycle i) := by
  have hasked := World.asking_inquired.pollInquiry w site .scaleSets i
  unfold World.pollListing
  rcases hpoll : w.pollInquiry site .scaleSets i with ⟨w', i' | listed⟩
  · rw [hpoll] at hasked
    refine (?_ : Carried H site t cycle w' _).of_inquired hasked
    refine ⟨h.inquired hasked, .refl t w', ⟨?_, hneeds⟩, rfl⟩
    show w'.journal.HeldBy t
    rw [hasked.journal]
    exact hheld
  · have htold := htells _ _ (World.tells_pollInquiry (congrArg Prod.snd hpoll))
    rw [hpoll] at hasked
    refine (?_ : Carried H site t cycle w' _).of_inquired hasked
    refine carried_planCycle (h.inquired hasked) (fun q r hr ↦ htells q r (hasked.tells hr)) ?_ ?_
    · rw [hasked.journal]
      exact hheld
    · refine ⟨hasks, ?_⟩
      rw [if_pos hneeds]
      exact htold

/-- A poll of a cycle carries it on. -/
theorem carried_pollCycle (h : w.Kept H site) (htells : ∀ q r, w.Tells site q r → H.told t q r)
    (hasks : H.asked t cycle) {phase : CyclePhase}
    (hp : phase.Sound H site w.journal t cycle) :
    Carried H site t cycle w (w.pollCycle site t cycle phase) := by
  cases phase with
  | queued =>
    dsimp only [World.pollCycle]
    by_cases hgate : w.hasGate t = true
    · have hfree := h.free_of_hasGate hgate hp
      have hheld := hfree.giveGate t
      have hgiven := h.giveGate hfree hgate
      rw [if_pos hgate]
      refine (?_ : Carried H site t cycle { w with journal := w.journal.giveGate t } _).of_step
        (.of_turns (fun _ _ ↦ rfl) rfl ?_ rfl rfl) rfl
      · by_cases hneeds : cycle.needsListing site = true
        · rw [if_pos hneeds]
          exact carried_pollListing hgiven htells hasks hheld hneeds _
        · rw [if_neg hneeds]
          refine carried_planCycle hgiven htells hheld ⟨hasks, ?_⟩
          rw [if_neg hneeds]
      · intro t' ht'
        exact Journal.undisturbed_of_ne (Or.inl hfree) (Or.inr hheld) ht'
    · rw [if_neg hgate]
      exact ⟨h, .refl t w, hp, rfl⟩
  | listing i => exact carried_pollListing h htells hasks hp.1 hp.2 i
  | indexing b plan listings =>
    obtain ⟨hheld, rfl, rfl, hplanned⟩ := hp
    exact carried_pollIndexing h htells hheld hplanned

theorem carried_startCycle (h : w.Kept H site) (htells : ∀ q r, w.Tells site q r → H.told t q r)
    (hasks : H.asked t cycle) (hout : ¬ w.journal.HeldBy t) :
    Carried H site t cycle w (w.startCycle site t cycle) := by
  refine (?_ : Carried H site t cycle (w.joinGate t) _).of_step
    (.of_journal (fun _ _ ↦ rfl) rfl rfl) rfl
  exact carried_pollCycle (h.joinGate t) htells hasks hout

end NodeFleet.Fleet
