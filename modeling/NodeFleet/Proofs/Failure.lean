import NodeFleet.Proofs.Calls
import NodeFleet.Proofs.Traversals
/-!
Calls that fail. Wherever a fetch or a refresh fails, no step of its own has touched the snapshot,
the pins or the time of the last refresh: only the step that makes it succeed does. One whose specs
are malformed does not even ask.
-/

set_option autoImplicit false
set_option relaxedAutoImplicit false

namespace NodeFleet.Fleet

open NodeFleet.Discovery NodeFleet.Quota

variable {α : Type}

/-- Worlds with the same snapshot, the same pins and the same last refresh. -/
structure World.Unchanged (w w' : World α) : Prop where
  registry : w'.registry = w.registry
  pinned : w'.pinned = w.pinned
  refreshedAt : w'.refreshedAt = w.refreshedAt

namespace World

variable {w w' w'' : World α}

theorem Unchanged.refl (w : World α) : w.Unchanged w :=
  ⟨rfl, rfl, rfl⟩

theorem Unchanged.trans (h : w.Unchanged w') (h' : w'.Unchanged w'') : w.Unchanged w'' :=
  ⟨h'.registry.trans h.registry, h'.pinned.trans h.pinned, h'.refreshedAt.trans h.refreshedAt⟩

theorem Inquired.unchanged (h : Inquired w w') : w.Unchanged w' :=
  ⟨h.registry, h.pinned, h.refreshedAt⟩

/-- A refresh is due just when it was. -/
theorem Unchanged.refreshDue (h : w.Unchanged w') (site : Site) (now : Nat) :
    ({ w' with now } : World α).refreshDue site = ({ w with now } : World α).refreshDue site := by
  unfold World.refreshDue
  rw [show ({ w' with now } : World α).refreshedAt = w.refreshedAt from h.refreshedAt]

theorem unchanged_changeAccount (w : World α) (change : Account → Account) :
    w.Unchanged (w.changeAccount change) := by
  unfold World.changeAccount
  split
  · exact ⟨rfl, rfl, rfl⟩
  · exact .refl w

variable [Balance α] (w : World α) (site : Site)

/-! ### Cycles that do not succeed -/

theorem unchanged_pollIndexing (b : Brief) (plan : Plan) (listings : List Listing)
    (h : (w.pollIndexing site b plan listings).2 ≠ .finished (.ok ())) :
    w.Unchanged (w.pollIndexing site b plan listings).1 := by
  have hasked := (asking_inquired.pollListings w site plan.groups listings).unchanged
  unfold pollIndexing at h ⊢
  rcases hpoll : w.pollListings site plan.groups listings with ⟨w', listings'⟩
  rw [hpoll] at h hasked
  dsimp only at h ⊢
  split
  · exact ⟨hasked.registry, hasked.pinned, hasked.refreshedAt⟩
  · rename_i hfailure
    rw [hfailure] at h
    split
    · exact hasked
    · rename_i members hgathered
      simp only [hgathered] at h
      exact absurd rfl h

theorem unchanged_planCycle (t : Ticket) (cycle : Cycle) (listed : Except Error (List ScaleSet))
    (h : (w.planCycle site t cycle listed).2 ≠ .finished (.ok ())) :
    w.Unchanged (w.planCycle site t cycle listed).1 := by
  unfold planCycle at h ⊢
  dsimp only at h ⊢
  cases hcandidates : listed.bind fun l ↦ cycle.candidates site l with
  | error e => exact ⟨rfl, rfl, rfl⟩
  | ok candidates =>
    rw [hcandidates] at h
    dsimp only at h ⊢
    obtain ⟨cells, hnew⟩ :=
      ({ w with journal := w.journal.settle } : World α).inquired_newGroups candidates
    rw [hnew] at h ⊢
    have hpolled := unchanged_pollIndexing _ site _ _ _ h
    exact ⟨hpolled.registry, hpolled.pinned, hpolled.refreshedAt⟩

theorem unchanged_pollListing (t : Ticket) (cycle : Cycle) (i : Inquiry)
    (h : (w.pollListing site t cycle i).2 ≠ .finished (.ok ())) :
    w.Unchanged (w.pollListing site t cycle i).1 := by
  have hasked := (asking_inquired.pollInquiry w site .scaleSets i).unchanged
  unfold pollListing at h ⊢
  rcases hpoll : w.pollInquiry site .scaleSets i with ⟨w', i' | listed⟩
  · rw [hpoll] at hasked
    exact hasked
  · rw [hpoll] at hasked h
    exact hasked.trans (w'.unchanged_planCycle site t cycle listed h)

/-- A poll that does not make a cycle succeed leaves everything as it was. -/
theorem unchanged_pollCycle (t : Ticket) (cycle : Cycle) (phase : CyclePhase)
    (h : (w.pollCycle site t cycle phase).2 ≠ .finished (.ok ())) :
    w.Unchanged (w.pollCycle site t cycle phase).1 := by
  cases phase with
  | queued =>
    dsimp only [pollCycle] at h ⊢
    split_ifs at h ⊢
    · have hpolled := unchanged_pollListing _ site t cycle _ h
      exact ⟨hpolled.registry, hpolled.pinned, hpolled.refreshedAt⟩
    · have hplanned := unchanged_planCycle _ site t cycle _ h
      exact ⟨hplanned.registry, hplanned.pinned, hplanned.refreshedAt⟩
    · exact .refl w
  | listing i => exact w.unchanged_pollListing site t cycle i h
  | indexing b plan listings => exact w.unchanged_pollIndexing site b plan listings h

theorem unchanged_startCycle (t : Ticket) (cycle : Cycle)
    (h : (w.startCycle site t cycle).2 ≠ .finished (.ok ())) :
    w.Unchanged (w.startCycle site t cycle).1 := by
  have hpolled := (w.joinGate t).unchanged_pollCycle site t cycle .queued h
  exact ⟨hpolled.registry, hpolled.pinned, hpolled.refreshedAt⟩

/-! ### Steps of a call that do not succeed -/

omit [Balance α] in
theorem unchanged_wrapCycle {w : World α} {errand : Errand}
    {r : World α × Progress CyclePhase (Except Error Unit)}
    (hr : r.2 ≠ .finished (.ok ()) → w.Unchanged r.1)
    (h : (wrapCycle errand r).2 ≠ .finished .done) : w.Unchanged (wrapCycle errand r).1 := by
  rcases r with ⟨w', phase | e | ⟨⟩⟩
  · exact hr fun h ↦ by cases h
  · exact hr fun h ↦ by cases h
  · exact absurd rfl h

omit [Balance α] in
theorem unchanged_noted {w : World α} {r : World α × Progress CyclePhase (Except Error Unit)}
    (hr : r.2 ≠ .finished (.ok ()) → w.Unchanged r.1)
    (h : (noted r).2 ≠ .finished (.ok ())) : w.Unchanged (noted r).1 := by
  rcases r with ⟨w', phase | e | ⟨⟩⟩
  · exact hr h
  · exact hr h
  · exact absurd rfl h

theorem unchanged_afterCycle {w : World α} {site : Site} {t : Ticket} {o : Operation}
    {errand : Errand} (he : o.errand? = some errand)
    {r : World α × Progress CyclePhase (Except Error Unit)}
    (hr : r.2 ≠ .finished (.ok ()) → w.Unchanged r.1)
    (h : (afterCycle site t errand r).2 ≠ .finished .done) :
    w.Unchanged (afterCycle site t errand r).1 := by
  rcases Operation.errand_cases he with ⟨cycle, rfl⟩ | rfl
  · exact unchanged_wrapCycle hr h
  · exact unchanged_wrapCycle (unchanged_noted hr) h

theorem unchanged_startOperation {w : World α} {site : Site} {t : Ticket} {o : Operation}
    (ho : o.OneCycle) (h : (w.startOperation site t o).2 ≠ .finished .done) :
    w.Unchanged (w.startOperation site t o).1 := by
  rcases w.startOperation_cases site t ho with ⟨outcome, -, hover⟩ | ⟨errand, he, hstart⟩
  · rw [hover]
    exact .refl w
  · rw [hstart] at h ⊢
    exact unchanged_afterCycle he (w.unchanged_startCycle site t _) h

theorem unchanged_pollActivity {w : World α} {site : Site} {t : Ticket} {o : Operation}
    (ho : o.OneCycle) {a : Activity} (ha : o.Drives a)
    (h : (w.pollActivity site t a).2 ≠ .finished .done) :
    w.Unchanged (w.pollActivity site t a).1 := by
  obtain ⟨errand, phase, he, rfl⟩ := ha ho
  exact unchanged_afterCycle he (w.unchanged_pollCycle site t _ phase) h

end World

/-! ### Histories -/

/-- An event in the course of a call with which nothing else interferes. -/
def Event.Attends (t : Ticket) : Event → Prop
  | poll t' => t' = t
  | elapse _ => True
  | account _ => True
  | line _ => True
  | files _ => True
  | _ => False

variable [Balance α]

/-- What a call that begins on a fleet spares in all that happens until its end. -/
structure Spares (f : Fleet α) (o : Operation) (during : List Event) : Prop where
  first : f.world.Unchanged (f.begin o).world
  /-- Whatever else happens meanwhile, the polls of the call change nothing. -/
  polls : ∀ before later, during = before ++ .poll f.nextTicket :: later →
    ((f.begin o).after before).world.Unchanged
      (((f.begin o).after before).poll f.nextTicket).world
  /-- If nothing else happens meanwhile, nothing is changed in the end. -/
  undisturbed : (∀ e ∈ during, e.Attends f.nextTicket) →
    f.world.Unchanged ((f.begin o).after during).world
  due : (∀ e ∈ during, e.Attends f.nextTicket) → ∀ now,
    ({ ((f.begin o).after during).world with now } : World α).refreshDue f.site =
      ({ f.world with now } : World α).refreshDue f.site

variable {f : Fleet α} {o : Operation}

theorem Tracked.unchanged_poll {events : List Event} (h : f.Tracked events) (ho : o.OneCycle)
    {t : Ticket} (ht : (begun events)[t]? = some o)
    (hdone : (f.poll t).outcome? t ≠ some .done) :
    f.world.Unchanged (f.poll t).world := by
  unfold Fleet.poll at hdone ⊢
  cases hactivity : f.activity? t with
  | none => exact .refl _
  | some a =>
    have hmem := mem_of_activity? hactivity
    rw [hactivity] at hdone
    dsimp only at hdone ⊢
    rw [world_settle]
    refine World.unchanged_pollActivity ho (h.drives _ hmem o ht) ?_
    intro hover
    rw [outcome?_settle, h.apart _ hmem, hover] at hdone
    exact hdone (if_pos rfl)

theorem Tracked.unchanged_begin {events : List Event} (h : f.Tracked events) (ho : o.OneCycle)
    (hdone : (f.begin o).outcome? f.nextTicket ≠ some .done) :
    f.world.Unchanged (f.begin o).world := by
  rw [world_begin]
  refine World.unchanged_startOperation ho ?_
  intro hover
  rw [outcome?_begin, outcome?_eq_none_of_le h (Nat.le_refl _), hover] at hdone
  exact hdone (if_pos rfl)

theorem Reachable.tracked (hf : f.Reachable) (o : Operation) (during : List Event) :
    ∃ events, f.Tracked events ∧
      ((f.begin o).after during).Tracked (events ++ .begin o :: during) ∧
        (begun (events ++ .begin o :: during))[f.nextTicket]? = some o := by
  obtain ⟨site, cloud, files, quotas, events, rfl⟩ := hf
  refine ⟨events, tracked_after site cloud files quotas events, ?_, ?_⟩
  · have htracked := tracked_after site cloud files quotas (events ++ .begin o :: during)
    rw [after_append] at htracked
    exact htracked
  · rw [nextTicket_after]
    exact begun_of_begin events o during

/-- Nothing is known of tickets that are still to be given out. -/
theorem Reachable.none_of_le (hf : f.Reachable) {t : Ticket} (ht : f.nextTicket ≤ t) :
    f.activity? t = none ∧ f.outcome? t = none := by
  obtain ⟨events, htracked, -⟩ := hf.tracked .forceRefresh []
  refine ⟨?_, outcome?_eq_none_of_le htracked ht⟩
  cases hactivity : f.activity? t with
  | none => rfl
  | some a =>
    have hlt := htracked.known _ (mem_of_activity? hactivity)
    exact absurd hlt (Nat.not_lt_of_le ht)

theorem Reachable.fresh (hf : f.Reachable) :
    f.activity? f.nextTicket = none ∧ f.outcome? f.nextTicket = none :=
  hf.none_of_le (Nat.le_refl _)

/-- What is under way has no outcome yet. -/
theorem Reachable.outcome?_of_activity (hf : f.Reachable) {t : Ticket} {a : Activity}
    (ha : f.activity? t = some a) : f.outcome? t = none := by
  obtain ⟨events, htracked, -⟩ := hf.tracked .forceRefresh []
  exact htracked.apart _ (mem_of_activity? ha)

theorem Reachable.after (hf : f.Reachable) (events : List Event) :
    (f.after events).Reachable := by
  obtain ⟨site, cloud, files, quotas, before, rfl⟩ := hf
  exact ⟨site, cloud, files, quotas, before ++ events, (after_append _ before events).symm⟩

/-- As long as a call has not succeeded, it spares everything. -/
theorem Reachable.spares_of_undone (hf : f.Reachable) (ho : o.OneCycle) {during : List Event}
    (hnever : ∀ before, before <+: during →
      ((f.begin o).after before).outcome? f.nextTicket ≠ some .done) : Spares f o during := by
  have hfirst : f.world.Unchanged (f.begin o).world := by
    obtain ⟨events, htracked, -⟩ := hf.tracked o []
    exact htracked.unchanged_begin ho (hnever [] List.nil_prefix)
  have hpolls : ∀ before later, during = before ++ .poll f.nextTicket :: later →
      ((f.begin o).after before).world.Unchanged
        (((f.begin o).after before).poll f.nextTicket).world := by
    rintro before later rfl
    obtain ⟨events, -, htracked, hplace⟩ := hf.tracked o before
    refine htracked.unchanged_poll ho hplace ?_
    have hpolled := hnever (before ++ [.poll f.nextTicket]) ⟨later, by simp⟩
    rw [after_concat] at hpolled
    exact hpolled
  have hundisturbed : (∀ e ∈ during, e.Attends f.nextTicket) → ∀ before, before <+: during →
      f.world.Unchanged ((f.begin o).after before).world := by
    intro hattends before
    induction before using List.reverseRecOn with
    | nil => exact fun _ ↦ hfirst
    | append_singleton before ev ih =>
      rintro ⟨later, hduring⟩
      have hbefore : before <+: during := ⟨ev :: later, by rw [← hduring]; simp⟩
      have hev : ev.Attends f.nextTicket := hattends ev (by rw [← hduring]; simp)
      rw [after_concat]
      refine (ih hbefore).trans ?_
      cases ev with
      | poll t =>
        obtain rfl := hev
        exact hpolls before later (by rw [← hduring]; simp)
      | elapse millis => exact ⟨rfl, rfl, rfl⟩
      | account change => exact World.unchanged_changeAccount _ change
      | line line => exact ⟨rfl, rfl, rfl⟩
      | files files => exact ⟨rfl, rfl, rfl⟩
      | _ => exact hev.elim
  refine ⟨hfirst, hpolls, ?_, ?_⟩
  · exact fun hattends ↦ hundisturbed hattends during (List.prefix_refl _)
  · exact fun hattends now ↦
      (hundisturbed hattends during (List.prefix_refl _)).refreshDue f.site now

/-- A call that fails spares everything, wherever it fails. -/
theorem Reachable.spares (hf : f.Reachable) (ho : o.OneCycle) {during : List Event} {e : Error}
    (hfailed : ((f.begin o).after during).outcome? f.nextTicket = some (.failed e)) :
    Spares f o during := by
  refine hf.spares_of_undone ho ?_
  rintro before ⟨later, rfl⟩ hdone
  rw [after_append, outcome?_after_of_some hdone] at hfailed
  simp at hfailed

/-! ### Malformed specs -/

/-- A fetch of specs one of which is malformed fails at once and does nothing at all. -/
theorem Reachable.malformed (hf : f.Reachable) {texts : List String} {text : String}
    (htext : text ∈ texts) {fault : Error} (hfault : ExplicitSpec.parse text = .error fault) :
    (∃ e, (f.begin (.fetchExplicit texts)).outcome? f.nextTicket = some (.failed e)) ∧
      (f.begin (.fetchExplicit texts)).world = f.world := by
  obtain ⟨e, he⟩ : ∃ e, ExplicitSpec.parseAll texts = .error e := mapM_eq_error htext hfault
  have hstart : f.world.startOperation f.site f.nextTicket (.fetchExplicit texts) =
      (f.world, .finished (.failed e)) := by
    dsimp only [World.startOperation]
    rw [he]
  refine ⟨⟨e, ?_⟩, ?_⟩
  · rw [outcome?_begin, hf.fresh.2, hstart]
    exact if_pos rfl
  · rw [world_begin, hstart]

/-- Calls that fail leave a fleet just as it was, wherever they fail, and those with a malformed
spec make no inventory call. -/
theorem failed_calls (hf : f.Reachable) :
    (∀ o : Operation, o.OneCycle → ∀ during e,
      ((f.begin o).after during).outcome? f.nextTicket = some (.failed e) → Spares f o during) ∧
    ∀ texts, (∃ text ∈ texts, ∃ fault, ExplicitSpec.parse text = .error fault) →
      (∃ e, (f.begin (.fetchExplicit texts)).outcome? f.nextTicket = some (.failed e)) ∧
        (f.begin (.fetchExplicit texts)).world = f.world := by
  refine ⟨fun o ho during e hfailed ↦ hf.spares ho hfailed, ?_⟩
  rintro texts ⟨text, htext, fault, hfault⟩
  exact hf.malformed htext hfault

/-- An explicit fetch that succeeds. -/
def fetched : List Event :=
  [.begin (.fetchExplicit ["1:3:db"]), .elapse 10, .poll 0, .elapse 10, .poll 0]

/-- The course of a refresh during which the cloud comes to answer nothing about members. -/
def failing : List Event :=
  [.elapse 10, .poll 1,
    .line ⟨fun _ q ↦ match q with
      | .members _ => some (.error (.unavailable "gone"))
      | _ => none, fun _ ↦ 0⟩,
    .elapse 10, .poll 1]

theorem failed_calls_refresh :
    (smallFleet.after fetched).Reachable ∧
      (∃ e, (((smallFleet.after fetched).begin .forceRefresh).after failing).outcome?
        (smallFleet.after fetched).nextTicket = some (.failed e)) ∧
      Spares (smallFleet.after fetched) .forceRefresh failing := by
  have hreachable : (smallFleet.after fetched).Reachable :=
    ⟨smallSite, .account smallAccount, .empty, none, fetched, rfl⟩
  have hfails : ((((smallFleet.after fetched).begin .forceRefresh).after failing).outcome?
      (smallFleet.after fetched).nextTicket).any Outcome.isFailed = true := by
    decide +kernel
  obtain ⟨o, ho, hfailed⟩ := (Option.any_eq_true _ _).mp hfails
  cases o with
  | failed e =>
    exact ⟨hreachable, ⟨e, ho⟩, (failed_calls hreachable).1 .forceRefresh trivial failing e ho⟩
  | _ => cases hfailed

end NodeFleet.Fleet
