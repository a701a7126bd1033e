import NodeFleet.Proofs.Failure
import NodeFleet.Proofs.Serializability
/-!
What a successful auto discovery leaves. Explicitly configured groups are always registered, since
only cycles pin names and none evicts what is pinned. So the groups after an auto discovery are the
pinned ones, untouched, and one group for each other selected name, with the bounds of the last
entry of that name in the listing.
-/

set_option autoImplicit false
set_option relaxedAutoImplicit false

namespace NodeFleet.Fleet

open NodeFleet.Discovery NodeFleet.Quota

/-! ### Selected scale sets and their groups -/

/-- The listed scale sets that a selector of the site matches. -/
def Site.selected (site : Site) (listing : List ScaleSet) : List ScaleSet :=
  listing.filter (isSelected site.selectors)

def Gives (s : ScaleSet) (g : NodeGroup) : Prop :=
  g.name = s.name ∧ sizeBounds s = .ok g.bounds

theorem gives_of_candidate {s : ScaleSet} {c : Candidate} (h : candidate s = .ok c) (serial : Nat)
    (period : Duration) : Gives s ⟨serial, c.name, c.bounds, period⟩ := by
  unfold candidate at h
  cases hbounds : sizeBounds s with
  | error e =>
    rw [hbounds] at h
    cases h
  | ok bounds =>
    rw [hbounds] at h
    obtain rfl := Except.ok.inj h
    exact ⟨rfl, hbounds⟩

/-- The handles of selected candidates come from the selected scale sets, one for each. -/
theorem gives_handles {site : Site} {listing : List ScaleSet} {candidates : List Candidate}
    (h : selectedCandidates site.selectors listing = .ok candidates) (serial : Nat) :
    List.Forall₂ Gives (site.selected listing) (handles serial candidates) := by
  have hpairs : List.Forall₂ (fun s c ↦ candidate s = .ok c) (site.selected listing) candidates :=
    forall₂_of_mapM h
  generalize site.selected listing = scaleSets at hpairs
  clear h
  induction hpairs generalizing serial with
  | nil => exact .nil
  | cons hc hrest ih => exact .cons (gives_of_candidate hc _ _) (ih (serial + 1))

variable {scaleSets : List ScaleSet} {groups : List NodeGroup}

theorem keys_of_gives (h : List.Forall₂ Gives scaleSets groups) :
    keys groups = scaleSets.map fun s ↦ Text.lower s.name := by
  induction h with
  | nil => rfl
  | cons hg hrest ih =>
    rename_i s g scaleSets groups
    show g.key :: keys groups = _
    rw [ih, List.map_cons]
    unfold NodeGroup.key
    rw [hg.1]

/-- The last group of a name has the bounds of the last scale set of that name. -/
theorem bounds_of_gives (h : List.Forall₂ Gives scaleSets groups) (key : String) :
    (scaleSets.findRev? fun s ↦ Text.lower s.name = key).map sizeBounds =
      (lastNamed? key groups).map fun g ↦ .ok g.bounds := by
  have hreverse := List.forall₂_reverse_iff.mpr h
  unfold lastNamed?
  rw [List.findRev?_eq_find?_reverse, List.findRev?_eq_find?_reverse]
  generalize scaleSets.reverse = l at hreverse
  generalize groups.reverse = l' at hreverse
  induction hreverse with
  | nil => rfl
  | cons hg hrest ih =>
    rename_i s g l l'
    have hkey : g.key = Text.lower s.name := congrArg Text.lower hg.1
    by_cases hs : Text.lower s.name = key
    · simp [hkey, hs, hg.2]
    · simp [hkey, hs, ih]

/-! ### Explicit groups are registered -/

/-- Whether every pinned name is registered. -/
def Books.Covered (b : Books) : Prop :=
  ∀ k ∈ b.pinned, k ∈ keys b.registry.groups

theorem covered_empty : Books.empty.Covered :=
  fun _ hk ↦ absurd hk List.not_mem_nil

/-- A plan keeps the pinned names that are registered, and has those that it pins. -/
theorem covered_plan {b : Books} (hd : Distinct b.registry.groups) (hc : b.Covered) (cycle : Cycle)
    (resolved : List NodeGroup) {k : String}
    (hk : k ∈ b.pinned ∨ k ∈ (cycle.plan b.registry b.pinned resolved).pins) :
    k ∈ keys (cycle.plan b.registry b.pinned resolved).groups := by
  cases cycle with
  | explicit specs =>
    have hgroups : keys (Plan.explicit b.registry resolved).groups =
        (keys b.registry.groups ++ keys resolved).eraseDups := keys_placeGroups hd resolved
    show k ∈ keys (Plan.explicit b.registry resolved).groups
    rw [hgroups, List.mem_eraseDups, List.mem_append]
    exact hk.imp (hc k) id
  | auto =>
    rcases hk with hk | hk
    · show k ∈ keys (Plan.auto b.registry b.pinned resolved).groups
      rw [keys_auto hd]
      refine List.mem_append_left _ (List.mem_filter.mpr ⟨hc k hk, ?_⟩)
      exact decide_eq_true (Or.inl hk)
    · cases hk

theorem covered_effect {site : Site} {b : Books} (hd : Distinct b.registry.groups)
    (hc : b.Covered) (t : Turn) : (t.effect site b b).Covered := by
  unfold Turn.effect
  rcases ho : t.outcome site b with e | ⟨plan, index⟩
  · exact hc
  · obtain ⟨candidates, members, -, rfl, -⟩ := Cycle.outcome_eq_ok.mp ho
    intro k hk
    have hgroups := Plan.groups_commit (marked_plan t.brief.cycle b.registry b.pinned
      (handles t.brief.serial candidates)) index
    show k ∈ keys (Plan.commit _ b.registry index).groups
    rw [hgroups]
    refine covered_plan hd hc t.brief.cycle _ ?_
    rcases List.mem_append.mp hk with hk | hk
    · exact Or.inl hk
    · exact Or.inr (List.mem_of_mem_filter hk)

theorem Unwritten.covered {site : Site} {b : Books} {deeds : List Deed}
    (h : Unwritten site b deeds) (hd : Distinct b.registry.groups) (hc : b.Covered) :
    (booksAfter site b deeds).Covered := by
  induction h with
  | nil b => exact hc
  | @turn b t rest hm ht hrest ih =>
    rw [booksAfter_turn hm]
    exact ih (t.distinct_effect hd hd) (covered_effect hd hc t)

/-! ### One auto discovery -/

/-- What an auto discovery makes of the books by a listing. -/
structure Discovered (site : Site) (listing : List ScaleSet) (before after : Books) : Prop where
  /-- Every explicitly configured name is registered. -/
  covered : before.Covered
  pinned : after.pinned = before.pinned
  /-- Explicitly configured groups are the very handles that they were. -/
  explicit : ∀ g : NodeGroup, g.key ∈ before.pinned →
    (g ∈ after.registry.groups ↔ g ∈ before.registry.groups)
  /-- There is one group for each name. -/
  distinct : Distinct after.registry.groups
  names : ∀ k, k ∈ keys after.registry.groups ↔
    k ∈ before.pinned ∨ k ∈ (site.selected listing).map fun s ↦ Text.lower s.name
  /-- The other groups have the bounds of the last entry of their name. -/
  bounds : ∀ g ∈ after.registry.groups, g.key ∉ before.pinned →
    ((site.selected listing).findRev? fun s ↦ Text.lower s.name = g.key).map sizeBounds =
      some (.ok g.bounds)
  /-- Registered names keep their order, and new ones follow in the order of the listing. -/
  order : keys after.registry.groups =
    ((keys before.registry.groups).filter fun k ↦
      k ∈ before.pinned ∨ k ∈ (site.selected listing).map fun s ↦ Text.lower s.name) ++
    (((site.selected listing).map fun s ↦ Text.lower s.name).filter fun k ↦
      k ∉ before.pinned ∧ k ∉ keys before.registry.groups).eraseDups

/-- Whether the groups are those of a preview, apart from the explicitly configured ones. -/
def Agrees (preview : List NodeGroup) (before after : Books) : Prop :=
  (∀ k, k ∈ keys after.registry.groups ↔ k ∈ before.pinned ∨ k ∈ keys preview) ∧
    ∀ g ∈ after.registry.groups, g.key ∉ before.pinned →
      (lastNamed? g.key preview).map NodeGroup.bounds = some g.bounds

variable {site : Site} {listing : List ScaleSet} {b : Books}

/-- A group that is not pinned has the bounds of the last scale set of its name after
an auto plan. -/
theorem sizeBounds_of_mem_auto (hd : Distinct b.registry.groups) {resolved : List NodeGroup}
    (hr : List.Forall₂ Gives (site.selected listing) resolved) {g : NodeGroup}
    (hg : g ∈ (Plan.auto b.registry b.pinned resolved).groups) (hpinned : g.key ∉ b.pinned) :
    ((site.selected listing).findRev? fun s ↦ Text.lower s.name = g.key).map sizeBounds =
      some (.ok g.bounds) := by
  obtain ⟨last, hfound, hbounds⟩ := Option.map_eq_some_iff.mp (bounds_of_mem_auto hd hg hpinned)
  rw [bounds_of_gives hr, hfound]
  exact congrArg (fun x ↦ some (Except.ok x)) hbounds

theorem discovered_install (hd : Distinct b.registry.groups) (hc : b.Covered)
    {resolved : List NodeGroup} (hr : List.Forall₂ Gives (site.selected listing) resolved)
    (index : Table String) :
    Discovered site listing b
      (b.install (Plan.auto b.registry b.pinned resolved) index) := by
  have hkeys := keys_of_gives hr
  have hgroups : (b.install (Plan.auto b.registry b.pinned resolved) index).registry.groups =
      (Plan.auto b.registry b.pinned resolved).groups :=
    Plan.groups_commit (Plan.marked_auto b.registry b.pinned resolved) index
  have horder := keys_auto hd b.pinned resolved
  rw [hkeys] at horder
  refine ⟨hc, List.append_nil _, ?_, ?_, ?_, ?_, ?_⟩
  · intro g hg
    rw [hgroups]
    exact mem_auto_of_pinned hg resolved
  · rw [hgroups]
    exact distinct_plan .auto hd b.pinned resolved
  · intro k
    rw [hgroups, horder, List.mem_append, List.mem_filter, List.mem_eraseDups, List.mem_filter,
      decide_eq_true_iff, decide_eq_true_iff]
    constructor
    · rintro (⟨-, hk⟩ | ⟨hk, -⟩)
      · exact hk
      · exact Or.inr hk
    · rintro (hk | hk)
      · exact Or.inl ⟨hc k hk, Or.inl hk⟩
      · by_cases hpinned : k ∈ b.pinned
        · exact Or.inl ⟨hc k hpinned, Or.inl hpinned⟩
        · by_cases hknown : k ∈ keys b.registry.groups
          · exact Or.inl ⟨hknown, Or.inr hk⟩
          · exact Or.inr ⟨hk, hpinned, hknown⟩
  · intro g hg hpinned
    rw [hgroups] at hg
    exact sizeBounds_of_mem_auto hd hr hg hpinned
  · rw [hgroups]
    exact horder

/-- A preview of the same listing has the same groups apart from the explicitly configured ones. -/
theorem Discovered.agrees {after : Books} (h : Discovered site listing b after)
    {preview : List NodeGroup} (hp : List.Forall₂ Gives (site.selected listing) preview) :
    Agrees preview b after := by
  refine ⟨?_, ?_⟩
  · rw [keys_of_gives hp]
    exact h.names
  · intro g hg hpinned
    have hlast := h.bounds g hg hpinned
    rw [bounds_of_gives hp] at hlast
    obtain ⟨last, hfound, hbounds⟩ := Option.map_eq_some_iff.mp hlast
    rw [hfound]
    exact congrArg some (Except.ok.inj hbounds)

/-- The listing of a turn that succeeded, and what its auto discovery made of the books. -/
theorem Turn.Faithful.discovered {H : Lore} {t : Turn} (h : t.Faithful site b b)
    (hheard : t.Heard H site) (hcycle : t.brief.cycle = .auto) (hr : t.result = .ok ())
    (hd : Distinct b.registry.groups) (hc : b.Covered) :
    ∃ listing,
      (if Cycle.needsListing site .auto then H.told t.brief.ticket .scaleSets (.ok listing)
        else listing = []) ∧
      (∃ candidates, selectedCandidates site.selectors listing = .ok candidates) ∧
        Discovered site listing b (t.effect site b b) := by
  obtain ⟨listing, candidates, members, hlisted, hcandidates, -, heffect⟩ :=
    h.effect_of_done hheard hr
  have htold := hheard.listing hlisted
  rw [hcycle] at htold hcandidates heffect
  refine ⟨listing, htold, ⟨candidates, hcandidates⟩, ?_⟩
  rw [heffect]
  exact discovered_install hd hc (gives_handles hcandidates _) _

/-! ### Histories without direct writes -/

variable {α : Type}

namespace World

variable {H : Lore} {w w' : World α}

theorem Kept.covered (h : w.Kept H site) (hw : w.journal.writes = []) : w.books.Covered := by
  obtain ⟨hbooks, hunwritten⟩ := h.unwritten hw
  rw [hbooks]
  exact hunwritten.covered distinct_empty covered_empty

/-- A new turn has done to the books what its cycle does alone. -/
theorem Kept.turn_added (h : w.Kept H site) (h' : w'.Kept H site) (hw : w.journal.writes = [])
    (hw' : w'.journal.writes = []) {t : Turn}
    (ht : w'.journal.turns = w.journal.turns ++ [t]) :
    t.Faithful site w.books w.books ∧ w'.books = t.effect site w.books w.books := by
  obtain ⟨hbooks, hunwritten⟩ := h.unwritten hw
  obtain ⟨hbooks', hunwritten'⟩ := h'.unwritten hw'
  have hlast : w'.journal.deeds = w.journal.deeds ++ [.turn t] := by
    have hturns : w'.journal.deeds.filterMap Deed.turn? =
        w.journal.deeds.filterMap Deed.turn? ++ [t] := ht
    rw [hunwritten'.deeds_eq, hturns, List.map_append, ← hunwritten.deeds_eq]
    rfl
  have hmeanwhile : t.meanwhile = [] := by
    have hnone := (List.append_eq_nil_iff.mp hw').1
    rw [hlast, List.flatMap_append] at hnone
    have hturn := (List.append_eq_nil_iff.mp hnone).2
    rw [List.flatMap_singleton] at hturn
    exact hturn
  have hfaithful : Faithful site .empty w'.journal.deeds := h'.faithful
  rw [hlast, faithful_append, ← hbooks] at hfaithful
  obtain ⟨-, hturn, -⟩ := hfaithful
  rw [overwritten_eq _ hmeanwhile] at hturn
  refine ⟨hturn, ?_⟩
  rw [hbooks', hlast, booksAfter_append, ← hbooks, booksAfter_turn hmeanwhile]
  rfl

end World

/-- A successful explicit fetch, and an auto discovery up to its last poll. -/
def discovering : List Event :=
  fetched ++ [.begin .fetchAuto, .elapse 10, .poll 1, .elapse 10]

end NodeFleet.Fleet
