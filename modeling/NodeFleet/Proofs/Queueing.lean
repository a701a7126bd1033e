import NodeFleet.Proofs.GateLine
import NodeFleet.Proofs.SizeProtocol
/-!
Waiting at the gate. An activity that is not the first in the line of the gate gets nowhere with its
cycle, least of all to a refresh. One that stands in the line keeps its place: nobody comes before
it who was not there when it joined, and what is done meanwhile is done by those who were.
-/

set_option autoImplicit false
set_option relaxedAutoImplicit false

namespace NodeFleet.Fleet

open NodeFleet.Discovery NodeFleet.Quota

variable {α : Type} {H : Lore} {site : Site} {w : World α} {t u x : Ticket}

/-- Only the first in the line holds the gate. -/
theorem World.Kept.not_heldBy (h : w.Kept H site) (hx : w.gate.head? = some x) (hne : x ≠ u) :
    ¬ w.journal.HeldBy u := by
  intro hu
  rcases h.gate with hfree | ⟨holder, hheld, hhead⟩
  · exact hfree.not_heldBy hu
  · obtain rfl := Option.some.inj (hhead.symm.trans hx)
    exact hne (hheld.eq hu)

theorem CyclePhase.Sound.eq_queued {j : Journal} {cycle : Cycle} {phase : CyclePhase}
    (h : phase.Sound H site j t cycle) (hout : ¬ j.HeldBy t) : phase = .queued :=
  by_contra fun hphase ↦ hout (h.heldBy hphase)

/-! ### Those who are not the first -/

namespace World

variable [Balance α]

omit [Balance α] in
theorem hasGate_eq_false (hx : w.gate.head? = some x) (hne : x ≠ u) : w.hasGate u = false := by
  unfold hasGate
  rw [hx]
  exact beq_false_of_ne fun h ↦ hne (Option.some.inj h)

theorem pollCycle_of_held (hx : w.gate.head? = some x) (hne : x ≠ u) (cycle : Cycle) :
    w.pollCycle site u cycle .queued = (w, .waiting .queued) := by
  unfold pollCycle
  rw [hasGate_eq_false hx hne]
  rfl

theorem startCycle_of_held (hx : w.gate.head? = some x) (hne : x ≠ u) (cycle : Cycle) :
    w.startCycle site u cycle = (w.joinGate u, .waiting .queued) := by
  have hjoined : (w.joinGate u).gate.head? = some x := by
    show (w.gate ++ [u]).head? = some x
    rw [List.head?_append, hx]
    rfl
  exact pollCycle_of_held hjoined hne cycle

theorem startErrand_of_held (hx : w.gate.head? = some x) (hne : x ≠ u) (errand : Errand) :
    w.startErrand site u errand = (w.joinGate u, .waiting (.discovering errand .queued)) := by
  unfold startErrand
  rw [startCycle_of_held hx hne]
  cases errand with
  | fetch cycle => rfl
  | refresh => rfl
  | create => rfl

theorem refreshedAt_drain (hx : w.gate.head? = some x) (hne : x ≠ u) (rounds : Nat)
    (r : Refresher) :
    (Refresher.drain site u rounds w r).1.refreshedAt = w.refreshedAt := by
  cases rounds with
  | zero => rfl
  | succ rounds =>
    unfold Refresher.drain
    split_ifs
    · rfl
    · dsimp only [startRefresh]
      rw [startCycle_of_held hx hne]
      rfl

omit [Balance α] in
theorem refreshedAt_resolveWith (wanted : Wanted)
    {r : World α × Progress Inquiry (Except Error (List ScaleSet))} (hr : Inquired w r.1) :
    (resolveWith wanted r).1.refreshedAt = w.refreshedAt := by
  rcases r with ⟨w', i | listed⟩
  · exact hr.refreshedAt
  · dsimp only [resolveWith, resolve]
    cases listed.bind fun l ↦ wanted.candidates l with
    | error e => exact hr.refreshedAt
    | ok candidates =>
      obtain ⟨cells, hnew⟩ := w'.inquired_newGroups candidates
      dsimp only
      rw [hnew]
      exact hr.refreshedAt

/-- Whoever is not the first in the line refreshes nothing. -/
theorem refreshedAt_pollActivity (h : w.Kept H site) (hx : w.gate.head? = some x) (hne : x ≠ u)
    {a : Activity} (ha : a.Sound H site w.journal u) :
    (w.pollActivity site u a).1.refreshedAt = w.refreshedAt := by
  have hout := h.not_heldBy hx hne
  cases a with
  | pausing wake =>
    dsimp only [pollActivity]
    split_ifs
    · rfl
    · rfl
  | calling resourceGroup q phase =>
    exact (congrArg refreshedAt (wrap_world ..)).trans
      (asking_inquired.pollCall w resourceGroup q phase).refreshedAt
  | inquiring q i =>
    exact (congrArg refreshedAt (wrap_world ..)).trans
      (asking_inquired.pollInquiry w site q i).refreshedAt
  | resolving wanted i =>
    exact refreshedAt_resolveWith wanted (asking_inquired.pollInquiry w site .scaleSets i)
  | sizing g phase =>
    exact (congrArg refreshedAt (wrap_world ..)).trans
      (asking_inquired.pollSize w site u (fun _ _ ↦ inquired_cells _ _) phase).refreshedAt
  | discovering errand phase =>
    obtain rfl := (ha.busy _ _ rfl).eq_queued hout
    dsimp only [pollActivity]
    rw [pollCycle_of_held hx hne]
    cases errand with
    | fetch cycle => rfl
    | refresh => rfl
    | create => rfl
  | refreshing r =>
    show (r.poll w site u).1.refreshedAt = w.refreshedAt
    have habsorb := running_absorb r w.now
    unfold Refresher.poll
    dsimp only
    cases hrunning : (r.absorb w.now).running with
    | none => exact refreshedAt_drain hx hne _ _
    | some phase =>
      obtain rfl :=
        (ha.busy _ _ (Activity.underway?_of_running (habsorb.symm.trans hrunning))).eq_queued hout
      dsimp only [pollRefresh]
      rw [pollCycle_of_held hx hne]
      rfl

theorem refreshedAt_startResolving (wanted : Wanted) :
    (w.startResolving site wanted).1.refreshedAt = w.refreshedAt := by
  unfold startResolving
  split_ifs
  · rfl
  · exact refreshedAt_resolveWith wanted (asking_inquired.pollInquiry w site .scaleSets _)

theorem refreshedAt_startOperation (hx : w.gate.head? = some x) (hne : x ≠ u) (o : Operation) :
    (w.startOperation site u o).1.refreshedAt = w.refreshedAt := by
  have herrand : ∀ errand, (w.startErrand site u errand).1.refreshedAt = w.refreshedAt := by
    intro errand
    rw [startErrand_of_held hx hne]
    rfl
  cases o with
  | pause millis =>
    dsimp only [startOperation, pollActivity]
    split_ifs
    · rfl
    · rfl
  | call resourceGroup q =>
    exact (congrArg refreshedAt (wrap_world ..)).trans
      (asking_inquired.pollCall w resourceGroup q .fresh).refreshedAt
  | inquire q =>
    exact (congrArg refreshedAt (wrap_world ..)).trans
      (asking_inquired.pollInquiry w site q _).refreshedAt
  | resolveExplicit specs => exact refreshedAt_startResolving _
  | resolveSelectors selectors => exact refreshedAt_startResolving _
  | preview labels =>
    dsimp only [startOperation]
    cases Selector.parseAll labels with
    | error e => rfl
    | ok selectors => exact refreshedAt_startResolving _
  | size g =>
    exact (congrArg refreshedAt (wrap_world ..)).trans
      (asking_inquired.startSize w site u fun _ _ ↦ inquired_cells _ _).refreshedAt
  | fetchExplicit texts =>
    dsimp only [startOperation]
    cases ExplicitSpec.parseAll texts with
    | error e => rfl
    | ok specs => exact herrand _
  | fetchAuto => exact herrand _
  | refresh =>
    dsimp only [startOperation]
    split_ifs
    · exact herrand _
    · rfl
  | forceRefresh => exact herrand _
  | create => exact herrand _
  | refreshEvery millis => rfl

end World

/-! ### Those who stand in the line -/

/-- What others leave behind for an activity that stands in the line of the gate, with nobody before
it but those of `ahead`, in their order. -/
structure World.Passed (ahead : List Ticket) (t u : Ticket) (w : World α) (s : Stage) : Prop where
  line : ∃ first later, w.gate = first ++ t :: later ∧ first.Sublist ahead
  own : ∀ b plan, s = .planned b plan → b.ticket = u

namespace World.Passed

variable {ahead : List Ticket} {s : Stage} {w' : World α}

/-- Whoever leaves the line makes room for those behind. -/
theorem leave (h : w.Passed ahead t u s) (hne : u ≠ t) (hgate : w'.gate = w.gate.filter (· ≠ u)) :
    w'.Passed ahead t u .idle := by
  obtain ⟨first, later, hline, hsub⟩ := h.line
  refine ⟨⟨first.filter (· ≠ u), later.filter (· ≠ u), ?_, List.filter_sublist.trans hsub⟩,
    fun _ _ hs ↦ nomatch hs⟩
  rw [hgate, hline, List.filter_append, List.filter_cons_of_pos (by simpa using hne.symm)]

theorem tended [Balance α] (ahead : List Ticket) (site : Site) (hne : u ≠ t) :
    Tended site u fun (w : World α) s ↦ w.Passed ahead t u s where
  asking _ := World.asking_of_kept (fun _ _ h ↦ ⟨h.line, h.own⟩) fun h ↦ ⟨h.line, h.own⟩
  join {w} h := by
    obtain ⟨first, later, hline, hsub⟩ := h.line
    refine ⟨⟨first, later ++ [u], ?_, hsub⟩, fun _ _ hs ↦ nomatch hs⟩
    show w.gate ++ [u] = _
    rw [hline, List.append_assoc]
    rfl
  take h := ⟨h.line, fun _ _ hs ↦ nomatch hs⟩
  fault _ _ _ _ h := h.leave hne rfl
  plan {w} _ _ candidates _ h := by
    obtain ⟨cells, hnew⟩ :=
      ({ w with journal := w.journal.settle } : World α).inquired_newGroups candidates
    rw [hnew]
    refine ⟨h.line, ?_⟩
    rintro _ _ ⟨⟩
    rfl
  fail h _ _ := h.leave hne (by rw [← h.own _ _ rfl]; rfl)
  conclude h _ _ := h.leave hne (by rw [← h.own _ _ rfl]; rfl)
  noted h := ⟨h.line, h.own⟩

end World.Passed

/-! ### Those who have had the gate -/

/-- Who has had the gate once an activity has gone on: those that had it before,
and perhaps itself. -/
structure World.Recorded (holders : List Ticket) (u : Ticket) (w : World α) : Prop where
  kept : ∀ t ∈ holders, t ∈ w.journal.holders
  added : ∀ t ∈ w.journal.holders, t = u ∨ t ∈ holders

section

variable [Balance α]

theorem World.Recorded.tended (holders : List Ticket) (site : Site) (u : Ticket) :
    Tended site u fun (w : World α) _ ↦ w.Recorded holders u where
  asking _ := World.asking_of_kept (fun _ _ h ↦ ⟨h.kept, h.added⟩) fun h ↦ ⟨h.kept, h.added⟩
  join h := ⟨h.kept, h.added⟩
  take h := by
    refine ⟨fun t ht ↦ List.mem_append_left _ (h.kept t ht), fun t ht ↦ ?_⟩
    rcases List.mem_append.mp ht with hold | hnew
    · exact h.added t hold
    · exact Or.inl (List.mem_singleton.mp hnew)
  fault _ _ _ _ h := ⟨h.kept, h.added⟩
  plan {w} _ _ candidates _ h := by
    obtain ⟨cells, hnew⟩ :=
      ({ w with journal := w.journal.settle } : World α).inquired_newGroups candidates
    rw [hnew]
    exact ⟨h.kept, h.added⟩
  fail h _ _ := ⟨h.kept, h.added⟩
  conclude h _ _ := ⟨h.kept, h.added⟩
  noted h := ⟨h.kept, h.added⟩

omit [Balance α] in
theorem World.recorded (w : World α) (u : Ticket) : w.Recorded w.journal.holders u :=
  ⟨fun _ h ↦ h, fun _ h ↦ Or.inr h⟩

/-- A cycle that is polled while it is the first in the line gets the gate. -/
theorem World.recorded_pollCycle (site : Site) (hgate : w.hasGate t = true) (cycle : Cycle) :
    (w.pollCycle site t cycle .queued).1.Recorded (w.journal.holders ++ [t]) t := by
  have hgiven := ({ w with journal := w.journal.giveGate t } : World α).recorded t
  dsimp only [World.pollCycle]
  rw [if_pos hgate]
  split_ifs
  · exact (World.Recorded.tended _ site t).pollListing cycle _ hgiven
  · exact (World.Recorded.tended _ site t).planCycle cycle _ hgiven

/-- Who has had the gate stays on record, and comes on it by a step of its own. -/
theorem holders_step (f : Fleet α) (e : Event) :
    (∀ t ∈ f.world.journal.holders, t ∈ (f.step e).world.journal.holders) ∧
      ∀ t ∈ (f.step e).world.journal.holders, t ∈ f.world.journal.holders ∨ e = .poll t ∨
        (∃ o, e = .begin o) ∧ t = f.nextTicket := by
  have hsame : ∀ w : World α, w.journal.holders = f.world.journal.holders →
      (∀ t ∈ f.world.journal.holders, t ∈ w.journal.holders) ∧
        ∀ t ∈ w.journal.holders, t ∈ f.world.journal.holders ∨ e = .poll t ∨
          (∃ o, e = .begin o) ∧ t = f.nextTicket := by
    intro w hw
    rw [hw]
    exact ⟨fun t ht ↦ ht, fun t ht ↦ Or.inl ht⟩
  cases e with
  | begin o =>
    have hrecorded := (World.Recorded.tended f.world.journal.holders f.site f.nextTicket).begin
      (fun _ _ h ↦ ⟨h.kept, h.added⟩) o (f.world.recorded f.nextTicket)
    rw [← world_begin] at hrecorded
    refine ⟨hrecorded.kept, fun t ht ↦ ?_⟩
    exact (hrecorded.added t ht).elim (fun h ↦ Or.inr (Or.inr ⟨⟨o, rfl⟩, h⟩)) Or.inl
  | poll u =>
    cases hactivity : f.activity? u with
    | none =>
      refine hsame (f.poll u).world ?_
      unfold Fleet.poll
      rw [hactivity]
    | some a =>
      have hrecorded := (World.Recorded.tended f.world.journal.holders f.site u).poll (a := a)
        (fun _ _ h ↦ ⟨h.kept, h.added⟩) (f.world.recorded u)
      have hpolled : (f.poll u).world = (f.world.pollActivity f.site u a).1 := by
        unfold Fleet.poll
        rw [hactivity]
        exact world_settle ..
      rw [← hpolled] at hrecorded
      refine ⟨hrecorded.kept, fun t ht ↦ ?_⟩
      rcases hrecorded.added t ht with rfl | hold
      · exact Or.inr (Or.inl rfl)
      · exact Or.inl hold
  | stop u =>
    refine hsame (f.stop u).world ?_
    unfold Fleet.stop
    split
    · rw [world_settle]
      rfl
    · rfl
  | account change =>
    exact hsame _ (congrArg Journal.holders (journal_changeAccount f.world change).1)
  | replace candidates instances =>
    obtain ⟨cells, hnew⟩ := f.world.inquired_newGroups candidates
    refine hsame (f.world.replace candidates instances).1 ?_
    unfold World.replace
    rw [hnew]
    rfl
  | _ => exact hsame _ rfl

theorem mem_holders_after {f : Fleet α} (h : t ∈ f.world.journal.holders) (events : List Event) :
    t ∈ (f.after events).world.journal.holders := by
  induction events generalizing f with
  | nil => exact h
  | cons e rest ih => exact ih ((f.holders_step e).1 t h)

/-- Without a step of its own a ticket that has been given out does not come on record. -/
theorem not_mem_holders_step {f : Fleet α} {e : Event} (h : t ∉ f.world.journal.holders)
    (ht : t < f.nextTicket) (he : e ≠ .poll t) : t ∉ (f.step e).world.journal.holders := by
  intro hin
  rcases (f.holders_step e).2 t hin with hold | hpoll | ⟨-, hnext⟩
  · exact h hold
  · exact he hpoll
  · exact Nat.lt_irrefl _ (hnext ▸ ht)

end

/-- An activity that stands in the line of the gate with the cycle of its errand, and the line
before it if nobody is there but those of `ahead`. -/
structure Queues (errand : Errand) (ahead : List Ticket) (t : Ticket) (f : Fleet α) : Prop where
  activity : f.activity? t = some (.discovering errand .queued)
  line : ∃ first later, f.world.gate = first ++ t :: later ∧ first.Sublist ahead
  out : t ∉ f.world.journal.holders

namespace Queues

variable {errand : Errand} {ahead : List Ticket} {f : Fleet α} {e : Event}

/-- The first in the line is the activity itself or one of those that were there before it. -/
theorem exists_first (h : f.Queues errand ahead t) :
    ∃ x, f.world.gate.head? = some x ∧ (x ∈ ahead ∨ x = t) := by
  obtain ⟨first, later, hline, hsub⟩ := h.line
  rw [hline]
  cases first with
  | nil => exact ⟨t, rfl, Or.inr rfl⟩
  | cons x rest => exact ⟨x, rfl, Or.inl (hsub.subset List.mem_cons_self)⟩

/-- A change of the world that the gate and the journal do not show. -/
theorem of_world (h : f.Queues errand ahead t) {w : World α} (hgate : w.gate = f.world.gate)
    (hjournal : w.journal.holders = f.world.journal.holders) :
    ({ f with world := w } : Fleet α).Queues errand ahead t := by
  refine ⟨h.activity, ?_, ?_⟩
  · show ∃ first later, w.gate = first ++ t :: later ∧ first.Sublist ahead
    rw [hgate]
    exact h.line
  · show t ∉ w.journal.holders
    rw [hjournal]
    exact h.out

variable [Balance α]

/-- Polled too early, the activity goes on standing in the line and nothing is changed; polled in
its turn, it gets the gate. -/
theorem poll (h : f.Queues errand ahead t) :
    (f.poll t).Queues errand ahead t ∧ (f.poll t).world = f.world ∨
      t ∈ (f.poll t).world.journal.holders := by
  have hpolled :
      f.poll t = f.settle t (f.world.pollActivity f.site t (.discovering errand .queued)) := by
    unfold Fleet.poll
    rw [h.activity]
  rw [hpolled, world_settle]
  by_cases hgate : f.world.hasGate t = true
  · refine Or.inr ?_
    have hheld := (World.Recorded.tended _ f.site t).afterCycle errand
      (World.recorded_pollCycle f.site hgate (errand.cycle f.site))
    exact hheld.kept t (List.mem_append_right _ (List.mem_singleton_self t))
  · refine Or.inl ?_
    have hwaits : f.world.pollActivity f.site t (.discovering errand .queued) =
        (f.world, .waiting (.discovering errand .queued)) := by
      dsimp only [World.pollActivity, World.pollCycle]
      rw [if_neg hgate]
      cases errand with
      | fetch cycle => rfl
      | refresh => rfl
      | create => rfl
    rw [hwaits]
    refine ⟨⟨?_, h.line, h.out⟩, rfl⟩
    rw [activity?_settle h.activity, if_pos rfl]

/-- Whatever others do, the activity keeps its place. -/
theorem step (h : f.Queues errand ahead t) (hs : f.Staffed) (he : e ≠ .poll t) :
    (f.step e).Queues errand ahead t := by
  have hlt : t < f.nextTicket := hs.known _ (mem_of_activity? h.activity)
  have hout := not_mem_holders_step h.out hlt he
  cases e with
  | begin o =>
    have hne : f.nextTicket ≠ t := Nat.ne_of_gt hlt
    have hpassed := (World.Passed.tended ahead f.site hne).begin (fun _ _ h ↦ ⟨h.line, h.own⟩) o
      (w := f.world) ⟨h.line, fun _ _ hs ↦ nomatch hs⟩
    refine ⟨(activity?_step_of_ne hlt he fun h ↦ by cases h).trans h.activity, ?_, hout⟩
    show ∃ first later, (f.begin o).world.gate = first ++ t :: later ∧ first.Sublist ahead
    rw [world_begin]
    exact hpassed.line
  | poll u =>
    have hne : u ≠ t := fun h ↦ he (h ▸ rfl)
    have hactivity := (activity?_step_of_ne hlt he fun h ↦ by cases h).trans h.activity
    refine ⟨hactivity, ?_, hout⟩
    show ∃ first later, (f.poll u).world.gate = first ++ t :: later ∧ first.Sublist ahead
    unfold Fleet.poll
    cases hother : f.activity? u with
    | none => exact h.line
    | some a =>
      have hown : ∀ b plan, a.stage = .planned b plan → b.ticket = u := by
        intro b plan hstage
        have hstands := hs.stands _ (mem_of_activity? hother)
        rw [hstage] at hstands
        exact hstands
      dsimp only
      rw [world_settle]
      exact ((World.Passed.tended ahead f.site hne).poll (fun _ _ h ↦ ⟨h.line, h.own⟩)
        ⟨h.line, hown⟩).line
  | stop u =>
    show (f.stop u).Queues errand ahead t
    unfold Fleet.stop
    split
    · rename_i r hactivity
      have hne : t ≠ u := by
        rintro rfl
        cases hactivity.symm.trans h.activity
      refine ⟨?_, ?_, ?_⟩
      · rw [activity?_settle hactivity, if_neg hne]
        exact h.activity
      · rw [world_settle]
        exact h.line
      · rw [world_settle]
        exact h.out
    · exact h
  | account change =>
    obtain ⟨hjournal, -, hgate⟩ := journal_changeAccount f.world change
    exact h.of_world hgate (congrArg Journal.holders hjournal)
  | replace candidates instances =>
    obtain ⟨cells, hnew⟩ := f.world.inquired_newGroups candidates
    refine h.of_world ?_ ?_
    · unfold World.replace
      rw [hnew]
    · unfold World.replace
      rw [hnew]
      rfl
  | _ => exact h.of_world rfl rfl

/-- Before the activity gets the gate, only polls of those that were there before
it refresh anything. -/
theorem poll_of_refreshedAt (h : f.Queues errand ahead t) (hs : f.Staffed) (hsound : f.Sound H)
    (hout : t ∉ (f.step e).world.journal.holders)
    (he : (f.step e).world.refreshedAt ≠ f.world.refreshedAt) : ∃ u ∈ ahead, e = .poll u := by
  obtain ⟨x, hx, hfirst⟩ := h.exists_first
  cases e with
  | begin o =>
    obtain ⟨entry, hentry, hticket⟩ := hs.staffed x (List.mem_of_mem_head? hx)
    have hne : x ≠ f.nextTicket := hticket ▸ Nat.ne_of_lt (hs.known entry hentry)
    change (f.begin o).world.refreshedAt ≠ _ at he
    rw [world_begin] at he
    exact absurd (World.refreshedAt_startOperation hx hne o) he
  | poll u =>
    by_cases hne : x = u
    · obtain rfl := hne
      rcases hfirst with hahead | rfl
      · exact ⟨x, hahead, rfl⟩
      · rcases h.poll with ⟨-, hsame⟩ | hheld
        · exact absurd (congrArg World.refreshedAt hsame) he
        · exact absurd hheld hout
    · change (f.poll u).world.refreshedAt ≠ _ at he
      unfold Fleet.poll at he
      cases hactivity : f.activity? u with
      | none =>
        rw [hactivity] at he
        exact absurd rfl he
      | some a =>
        rw [hactivity] at he
        dsimp only at he
        rw [world_settle] at he
        exact absurd (World.refreshedAt_pollActivity hsound.kept hx hne
          (hsound.activities _ (mem_of_activity? hactivity))) he
  | stop u =>
    change (f.stop u).world.refreshedAt ≠ _ at he
    unfold Fleet.stop at he
    split at he
    · rw [world_settle] at he
      exact absurd rfl he
    · exact absurd rfl he
  | account change =>
    change (f.world.changeAccount change).refreshedAt ≠ _ at he
    unfold World.changeAccount at he
    split at he
    · exact absurd rfl he
    · exact absurd rfl he
  | replace candidates instances =>
    obtain ⟨cells, hnew⟩ := f.world.inquired_newGroups candidates
    change (f.world.replace candidates instances).1.refreshedAt ≠ _ at he
    unfold World.replace at he
    rw [hnew] at he
    exact absurd rfl he
  | _ => exact absurd rfl he

end Queues

end NodeFleet.Fleet
