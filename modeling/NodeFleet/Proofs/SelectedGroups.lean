import NodeFleet.Proofs.Failure
import NodeFleet.Proofs.Handles
import NodeFleet.Proofs.SizeTags
/-!
Calls that resolve selectors. Whatever else happens meanwhile, such a call comes to what the
selectors make of the listing that it is told: one new handle of unknown size for each selected
scale set in their order, or the refusal of the first of them whose tags state no bounds.
-/

set_option autoImplicit false
set_option relaxedAutoImplicit false

namespace NodeFleet.Fleet

open NodeFleet.Discovery NodeFleet.Quota

variable {α : Type}

/-- The selectors that an operation resolves, if it comes to that. -/
def Operation.selectors? : Operation → Option (List Selector)
  | resolveSelectors selectors => some selectors
  | preview labels => (Selector.parseAll labels).toOption
  | _ => none

/-- A handle made for a scale set, with the bounds that its tags state. It is new and nothing is
known of its size. -/
structure HandleOf (w w' : World α) (s : ScaleSet) (g : NodeGroup) : Prop where
  name : g.name = s.name
  sized : s.Sized g.bounds
  period : g.sizePeriod = defaultSizePeriod
  new : w.cells.size ≤ g.serial
  unknown : w'.cell g = .empty

/-- What selectors make of a listing. -/
structure Resolved (selectors : List Selector) (listing : List ScaleSet) (w w' : World α)
    (o : Outcome) : Prop where
  decided : (∃ groups, o = .groups groups) ∨ ∃ e, o = .failed e
  succeeds : (∃ groups, o = .groups groups) ↔
    ∀ s ∈ listing, s.SelectedBy selectors → ∃ b, s.Sized b
  groups : ∀ groups, o = .groups groups →
    List.Forall₂ (HandleOf w w') (listing.filter fun s ↦ s.SelectedBy selectors) groups ∧
      (groups.map NodeGroup.serial).Nodup
  refused : ∀ e, o = .failed e → Refused selectors listing e

/-- What a call comes to by the answer to its listing. -/
def Answered (selectors : List Selector) (w w' : World α) (o : Outcome) :
    Except Error (List ScaleSet) → Prop
  | .error e => o = .failed e
  | .ok listing => Resolved selectors listing w w' o

/-! ### Handles -/

theorem serials_handles (serial : Nat) (candidates : List Candidate) :
    (handles serial candidates).map NodeGroup.serial = List.range' serial candidates.length := by
  induction candidates generalizing serial with
  | nil => rfl
  | cons c rest ih => exact congrArg (serial :: ·) (ih (serial + 1))

/-- The handles made for candidates are new and of unknown size. -/
theorem handleOf_handles {w w' : World α} {scaleSets : List ScaleSet} {candidates : List Candidate}
    (h : List.Forall₂ (fun s c ↦ c.name = s.name ∧ s.Sized c.bounds) scaleSets candidates)
    {serial : Nat} (hserial : w.cells.size ≤ serial)
    (hcell : ∀ g : NodeGroup, serial ≤ g.serial → w'.cell g = .empty) :
    List.Forall₂ (HandleOf w w') scaleSets (handles serial candidates) := by
  induction h generalizing serial with
  | nil => exact .nil
  | cons hc hrest ih =>
    refine .cons ⟨hc.1, hc.2, rfl, hserial, hcell _ (Nat.le_refl _)⟩ (ih ?_ ?_)
    · exact Nat.le_succ_of_le hserial
    · exact fun g hg ↦ hcell g (Nat.le_of_succ_le hg)

variable [Balance α]

/-! ### Steps -/

variable {f : Fleet α} {site : Site} {selectors : List Selector} {o : Outcome}

omit [Balance α] in
theorem World.resolve_selected (w : World α) (selectors : List Selector)
    (listing : List ScaleSet) :
    w.resolve (.selected selectors) (.ok listing) =
      match selectedCandidates selectors listing with
      | .error e => (w, .failed e)
      | .ok candidates => ((w.newGroups candidates).1, .groups (w.newGroups candidates).2) := rfl

/-- A listing decides what becomes of the selectors. -/
theorem resolved_resolve {w₀ w : World α} (hsize : w₀.cells.size ≤ w.cells.size)
    (listing : List ScaleSet) :
    Resolved selectors listing w₀ (w.resolve (.selected selectors) (.ok listing)).1
      (w.resolve (.selected selectors) (.ok listing)).2 := by
  rw [World.resolve_selected]
  cases hcandidates : selectedCandidates selectors listing with
  | error e =>
    have hrefused := selectedCandidates_eq_error_iff.mp hcandidates
    refine ⟨Or.inr ⟨e, rfl⟩, ⟨?_, fun h ↦ absurd h hrefused.exists_unsized⟩, ?_, ?_⟩
    · rintro ⟨groups, hgroups⟩
      cases hgroups
    · intro groups hgroups
      cases hgroups
    · intro e' he
      obtain rfl := Outcome.failed.inj he
      exact hrefused
  | ok candidates =>
    have hsized := forall_sized_of_selectedCandidates hcandidates
    obtain ⟨cells, hnew⟩ := w.inquired_newGroups candidates
    refine ⟨Or.inl ⟨_, rfl⟩, ⟨fun _ ↦ hsized, fun _ ↦ ⟨_, rfl⟩⟩, ?_, ?_⟩
    · intro groups hgroups
      obtain rfl := Outcome.groups.inj hgroups
      have hcell : ∀ g : NodeGroup, w.cells.size ≤ g.serial →
          (w.newGroups candidates).1.cell g = .empty := fun g hg ↦
        ((World.borne_steady g).newGroups w candidates).cell.trans (World.cell_of_le hg)
      rw [show (w.newGroups candidates).2 = handles w.cells.size candidates from
        congrArg Prod.snd hnew]
      refine ⟨handleOf_handles (sized_selectedCandidates hcandidates) hsize hcell, ?_⟩
      rw [serials_handles]
      exact List.nodup_range'
    · intro e he
      cases he

/-- A poll that ends a resolution is told what the call comes to. -/
theorem answered_resolveWith {w : World α} {i : Inquiry}
    (h : (World.resolveWith (.selected selectors) (w.pollInquiry site .scaleSets i)).2 =
      .finished o) :
    ∃ listed, w.Tells site .scaleSets listed ∧ Answered selectors w
      (World.resolveWith (.selected selectors) (w.pollInquiry site .scaleSets i)).1 o listed := by
  have hsize := World.borne_size.pollInquiry w site .scaleSets i
  rcases hpoll : w.pollInquiry site .scaleSets i with ⟨w', i' | listed⟩
  · rw [hpoll] at h
    cases h
  · rw [hpoll] at h hsize
    refine ⟨listed, World.tells_pollInquiry (congrArg Prod.snd hpoll), ?_⟩
    obtain rfl := Progress.finished.inj h
    cases listed with
    | error e => rfl
    | ok listing => exact resolved_resolve hsize listing

theorem startOperation_of_selectors {operation : Operation}
    (ho : operation.selectors? = some selectors) (hne : selectors ≠ []) (w : World α) (t : Ticket) :
    w.startOperation site t operation =
      World.resolveWith (.selected selectors) (w.startInquiry site .scaleSets) := by
  have hwanted : (Wanted.selected selectors).isNothing = false := by
    simpa [Wanted.isNothing] using hne
  have hstart : w.startResolving site (.selected selectors) =
      World.resolveWith (.selected selectors) (w.startInquiry site .scaleSets) := by
    unfold World.startResolving
    rw [hwanted]
    rfl
  cases operation with
  | resolveSelectors selectors' =>
    obtain rfl := Option.some.inj ho
    exact hstart
  | preview labels =>
    dsimp only [Operation.selectors?] at ho
    dsimp only [World.startOperation]
    cases hparsed : Selector.parseAll labels with
    | error e => simp [hparsed, Except.toOption] at ho
    | ok selectors' =>
      rw [hparsed] at ho
      obtain rfl := Option.some.inj ho
      exact hstart
  | _ => cases ho

/-! ### Histories -/

/-- How a call to resolve selectors goes in a history that begins with it. -/
structure Resolves (f : Fleet α) (selectors : List Selector) (history : List Event) : Prop where
  /-- It comes to what it is told at that moment. -/
  answered : ∀ before e o, before ++ [e] <+: history →
    (f.after before).outcome? f.nextTicket = none →
      (f.after (before ++ [e])).outcome? f.nextTicket = some o →
        ∃ listed, (f.after before).world.Tells f.site .scaleSets listed ∧
          Answered selectors (f.after before).world (f.after (before ++ [e])).world o listed
  /-- Once its listing has an answer, the next poll ends it. -/
  prompt : ∀ before, before <+: history → before ≠ [] →
    (f.after before).outcome? f.nextTicket = none →
      ∃ i, (f.after before).activity? f.nextTicket =
          some (.resolving (.selected selectors) i) ∧
        ∀ listed, ((f.after before).world.pollInquiry f.site .scaleSets i).2 = .finished listed →
          ∃ o, ((f.after before).poll f.nextTicket).outcome? f.nextTicket = some o

theorem resolving_of_resolveWith {w : World α} {wanted : Wanted} {i : Inquiry}
    {a : Activity} (h : (World.resolveWith wanted (w.pollInquiry site .scaleSets i)).2 =
      .waiting a) : ∃ i', a = .resolving wanted i' := by
  rcases hpoll : w.pollInquiry site .scaleSets i with ⟨w', i' | listed⟩
  · rw [hpoll] at h
    exact ⟨i', (Progress.waiting.inj h).symm⟩
  · rw [hpoll] at h
    cases h

/-- While the call has no outcome, it is at its resolution. -/
theorem resolving_step {t : Ticket} {wanted : Wanted} {i : Inquiry} (ht : t < f.nextTicket)
    (ha : f.activity? t = some (.resolving wanted i)) {e : Event}
    (hnone : (f.step e).outcome? t = none) :
    ∃ i', (f.step e).activity? t = some (.resolving wanted i') := by
  by_cases hpoll : e = .poll t
  · obtain rfl := hpoll
    have hbefore := outcome?_eq_none_of_step hnone
    change (f.poll t).outcome? t = none at hnone
    show ∃ i', (f.poll t).activity? t = _
    unfold Fleet.poll at hnone ⊢
    rw [ha] at hnone ⊢
    dsimp only at hnone ⊢
    rw [outcome?_settle, hbefore, Option.none_or] at hnone
    rw [activity?_settle ha, if_pos rfl]
    cases hprogress : (f.world.pollActivity f.site t (.resolving wanted i)).2 with
    | waiting a =>
      obtain ⟨i', rfl⟩ := resolving_of_resolveWith hprogress
      exact ⟨i', rfl⟩
    | finished o =>
      rw [hprogress] at hnone
      simp at hnone
  · by_cases hstop : e = .stop t
    · obtain rfl := hstop
      refine ⟨i, ?_⟩
      show (f.stop t).activity? t = _
      unfold Fleet.stop
      rw [ha]
      exact ha
    · exact ⟨i, (activity?_step_of_ne ht hpoll hstop).trans ha⟩

theorem resolving_after {op : Operation} (hfresh : f.activity? f.nextTicket = none)
    (ho : op.selectors? = some selectors) (hne : selectors ≠ []) {during : List Event}
    (hnone : ((f.begin op).after during).outcome? f.nextTicket = none) :
    ∃ i, ((f.begin op).after during).activity? f.nextTicket =
      some (.resolving (.selected selectors) i) := by
  induction during using List.reverseRecOn with
  | nil =>
    change (f.begin op).outcome? f.nextTicket = none at hnone
    show ∃ i, (f.begin op).activity? f.nextTicket = _
    rw [outcome?_begin, Option.or_eq_none_iff] at hnone
    rw [activity?_begin_self hfresh]
    have hover := hnone.2
    rw [startOperation_of_selectors ho hne] at hover ⊢
    cases hprogress : (World.resolveWith (.selected selectors)
        (f.world.startInquiry f.site .scaleSets)).2 with
    | waiting a =>
      obtain ⟨i, rfl⟩ := resolving_of_resolveWith hprogress
      exact ⟨i, rfl⟩
    | finished o =>
      rw [hprogress] at hover
      simp at hover
  | append_singleton before e ih =>
    rw [after_concat] at hnone ⊢
    obtain ⟨i, hactivity⟩ := ih (outcome?_eq_none_of_step hnone)
    exact resolving_step (lt_nextTicket_after f op before) hactivity hnone

theorem answered_begin {events : List Event} (h : f.Tracked events) {op : Operation}
    (ho : op.selectors? = some selectors) (hne : selectors ≠ [])
    (hsome : (f.begin op).outcome? f.nextTicket = some o) :
    ∃ listed, f.world.Tells f.site .scaleSets listed ∧
      Answered selectors f.world (f.begin op).world o listed := by
  rw [outcome?_begin, outcome?_eq_none_of_le h (Nat.le_refl _), Option.none_or,
    startOperation_of_selectors ho hne] at hsome
  rw [world_begin, startOperation_of_selectors ho hne]
  refine answered_resolveWith (i := .start f.site f.world.now) ?_
  split at hsome
  · simp at hsome
  · rename_i outcome hover
    rw [if_pos rfl] at hsome
    obtain rfl := Option.some.inj hsome
    exact hover

theorem answered_step {t : Ticket} {i : Inquiry} (ht : t < f.nextTicket)
    (ha : f.activity? t = some (.resolving (.selected selectors) i)) {e : Event}
    (hnone : f.outcome? t = none) (hsome : (f.step e).outcome? t = some o) :
    ∃ listed, f.world.Tells f.site .scaleSets listed ∧
      Answered selectors f.world (f.step e).world o listed := by
  rcases outcome?_step hnone hsome with
    ⟨op, rfl, rfl, -⟩ | ⟨a, rfl, hactivity, hover⟩ | ⟨r, rfl, hactivity⟩
  · exact absurd ht (Nat.lt_irrefl _)
  · obtain rfl := Option.some.inj (ha.symm.trans hactivity)
    show ∃ listed, _ ∧ Answered selectors f.world (f.poll t).world o listed
    unfold Fleet.poll
    rw [ha]
    dsimp only
    rw [world_settle]
    exact answered_resolveWith hover
  · cases ha.symm.trans hactivity

theorem outcome?_poll_resolving {t : Ticket} {wanted : Wanted} {i : Inquiry}
    (ha : f.activity? t = some (.resolving wanted i)) (hnone : f.outcome? t = none)
    {listed : Except Error (List ScaleSet)}
    (hlisted : (f.world.pollInquiry f.site .scaleSets i).2 = .finished listed) :
    ∃ o, (f.poll t).outcome? t = some o := by
  unfold Fleet.poll
  rw [ha]
  dsimp only [World.pollActivity]
  rw [outcome?_settle, hnone, Option.none_or]
  rcases hpoll : f.world.pollInquiry f.site .scaleSets i with ⟨w, i' | listed'⟩
  · rw [hpoll] at hlisted
    cases hlisted
  · exact ⟨_, if_pos rfl⟩

/-- A call to resolve selectors comes to what they make of the listing that it is told, whatever
else happens meanwhile. Scale sets that no selector matches make no difference. -/
theorem selectors_resolved (hf : f.Reachable) {op : Operation}
    (ho : op.selectors? = some selectors) (hne : selectors ≠ []) (during : List Event) :
    Resolves f selectors (.begin op :: during) ∧
      ∀ (w : World α) (listing listing' : List ScaleSet),
        (listing.filter fun s ↦ s.SelectedBy selectors) =
          (listing'.filter fun s ↦ s.SelectedBy selectors) →
        World.resolveWith (.selected selectors) (w, .finished (.ok listing)) =
          World.resolveWith (.selected selectors) (w, .finished (.ok listing')) := by
  obtain ⟨events, htracked, -⟩ := hf.tracked op []
  have hfresh := htracked.fresh_activity
  have hbegun : ∀ before, before <+: .begin op :: during → before ≠ [] →
      ∃ later, before = .begin op :: later := by
    intro before hprefix hbefore
    cases before with
    | nil => exact absurd rfl hbefore
    | cons e later =>
      obtain ⟨rfl, -⟩ := List.cons_prefix_cons.mp hprefix
      exact ⟨later, rfl⟩
  refine ⟨⟨?_, ?_⟩, ?_⟩
  · intro before e o hprefix hnone hsome
    rw [after_concat] at hsome ⊢
    by_cases hbefore : before = []
    · obtain rfl := hbefore
      obtain ⟨rfl, -⟩ := List.cons_prefix_cons.mp hprefix
      exact answered_begin htracked ho hne hsome
    · obtain ⟨later, rfl⟩ := hbegun before ((List.prefix_append _ _).trans hprefix) hbefore
      obtain ⟨i, hactivity⟩ := resolving_after hfresh ho hne hnone
      have hanswered := answered_step (lt_nextTicket_after f op later) hactivity hnone hsome
      rw [((f.begin op).site_after later).1, site_begin] at hanswered
      exact hanswered
  · intro before hprefix hbefore hnone
    obtain ⟨later, rfl⟩ := hbegun before hprefix hbefore
    obtain ⟨i, hactivity⟩ := resolving_after hfresh ho hne hnone
    refine ⟨i, hactivity, fun listed hlisted ↦ ?_⟩
    have hsite : (f.after (.begin op :: later)).site = f.site := (f.site_after _).1
    rw [← hsite] at hlisted
    exact outcome?_poll_resolving hactivity hnone hlisted
  · intro w listing listing' hsame
    have hcandidates : selectedCandidates selectors listing =
        selectedCandidates selectors listing' := by
      unfold selectedCandidates
      rw [filter_isSelected, filter_isSelected, hsame]
    dsimp only [World.resolveWith]
    rw [World.resolve_selected, World.resolve_selected, hcandidates]

/-- Two selectors that match the same scale set. -/
def doubled : List Selector :=
  [⟨.insert .empty "on" "yes"⟩, ⟨.insert (.insert .empty "min" "0") "on" "yes"⟩]

/-- A call to resolve them, up to its last poll. -/
def resolving : List Event :=
  [.begin (.resolveSelectors doubled), .elapse 10]

theorem selectors_resolved_doubled :
    ∃ (listing : List ScaleSet) (groups : List NodeGroup),
      (smallFleet.after (resolving ++ [.poll 0])).outcome? 0 = some (.groups groups) ∧
      List.Forall₂ (HandleOf (smallFleet.after resolving).world
        (smallFleet.after (resolving ++ [.poll 0])).world)
          (listing.filter fun s ↦ s.SelectedBy doubled) groups ∧
      groups.map (fun g ↦ (g.name, g.bounds)) = [("Pool", ⟨0, 4⟩)] := by
  have hnone : (smallFleet.after resolving).outcome? 0 = none := by
    have hwaiting : ((smallFleet.after resolving).outcome? 0).isNone = true := by
      decide +kernel
    exact Option.isNone_iff_eq_none.mp hwaiting
  have hover : ((smallFleet.after (resolving ++ [.poll 0])).outcome? 0).map (fun o ↦ match o with
      | .groups groups => groups.map fun g ↦ (g.name, g.bounds)
      | _ => []) = some [("Pool", ⟨0, 4⟩)] := by
    decide +kernel
  obtain ⟨o, ho, hgroups⟩ := Option.map_eq_some_iff.mp hover
  have hreachable : smallFleet.Reachable :=
    ⟨smallSite, .account smallAccount, .empty, none, [], rfl⟩
  have hcall : (Operation.resolveSelectors doubled).selectors? = some doubled := rfl
  obtain ⟨⟨hanswered, -⟩, -⟩ :=
    selectors_resolved hreachable hcall (by decide) [.elapse 10, .poll 0]
  obtain ⟨listed, -, hlisted⟩ := hanswered resolving (.poll 0) o (List.prefix_refl _) hnone ho
  cases o with
  | groups groups =>
    cases listed with
    | error e => cases hlisted
    | ok listing => exact ⟨listing, groups, ho, (hlisted.groups groups rfl).1, hgroups⟩
  | _ => cases hgroups

end NodeFleet.Fleet
