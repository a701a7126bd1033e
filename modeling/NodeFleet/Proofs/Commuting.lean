import NodeFleet.Proofs.Refetches
/-!
Explicit fetches and auto discoveries commute. Seen through the bounds that names have in the
registry, an explicit fetch writes those of the specs that it finds over the others, and an auto
discovery writes those that it selects wherever a name is not pinned. On an inventory that stays as
it is, both find the same in either order, and what an explicit fetch finds it pins; so each name
ends with the same bounds whichever of the two comes first.
-/

set_option autoImplicit false
set_option relaxedAutoImplicit false

namespace NodeFleet

variable {groups placed : List NodeGroup} {k : String}

/-! ### Bounds by name -/

/-- The bounds of the first group of a name. -/
def boundsOf? (k : String) (groups : List NodeGroup) : Option Bounds :=
  (groups.find? fun g ↦ g.key = k).map NodeGroup.bounds

/-- The bounds of the last of the groups of a name. -/
def lastBounds? (k : String) (groups : List NodeGroup) : Option Bounds :=
  (lastNamed? k groups).map NodeGroup.bounds

theorem boundsOf?_eq_none_iff : boundsOf? k groups = none ↔ k ∉ keys groups := by
  unfold boundsOf? keys
  simp [List.find?_eq_none]

theorem lastBounds?_eq_none_iff : lastBounds? k groups = none ↔ k ∉ keys groups := by
  unfold lastBounds? lastNamed? keys
  rw [List.findRev?_eq_find?_reverse]
  simp [List.find?_eq_none]

/-- A name has the bounds with which it was placed last, or else those that it had. -/
theorem boundsOf?_placeGroups (k : String) (groups placed : List NodeGroup) :
    boundsOf? k (placeGroups groups placed).1 = (lastBounds? k placed).or (boundsOf? k groups) := by
  by_cases hk : k ∈ keys placed
  · obtain ⟨g, hg⟩ := exists_find?_placeGroups hk groups
    obtain ⟨last, hlast⟩ := exists_lastNamed? hk
    unfold boundsOf? lastBounds?
    rw [hg, hlast, Option.map_some, NodeGroup.bounds_overlaid, getLast?_ofKey, hlast]
    rfl
  · rw [lastBounds?_eq_none_iff.mpr hk, Option.none_or]
    unfold boundsOf?
    rw [find?_placeGroups, ofKey_eq_nil hk, List.head?_nil, Option.or_none, Option.map_map]
    rfl

theorem boundsOf?_filter (p : String → Bool) (k : String) (groups : List NodeGroup) :
    boundsOf? k (groups.filter fun g ↦ p g.key) = if p k then boundsOf? k groups else none := by
  unfold boundsOf?
  rw [List.find?_filter]
  by_cases hk : p k = true
  · have hsame : (fun g : NodeGroup ↦ decide (p g.key = true ∧ decide (g.key = k) = true)) =
        fun g ↦ decide (g.key = k) := by
      funext g
      by_cases hg : g.key = k
      · simp [hg, hk]
      · simp [hg]
    rw [if_pos hk, hsame]
  · rw [if_neg hk, List.find?_eq_none.mpr]
    · rfl
    · intro g _ hg
      obtain ⟨hkept, hkey⟩ := of_decide_eq_true hg
      rw [of_decide_eq_true hkey] at hkept
      exact hk hkept

namespace Fleet

open NodeFleet.Discovery NodeFleet.Quota

variable {α : Type}

/-- The bounds that candidates give a name. -/
def candidateBounds? (k : String) (candidates : List Candidate) : Option Bounds :=
  (candidates.findRev? fun c ↦ Text.lower c.name = k).map Candidate.bounds

theorem lastBounds?_handles (k : String) (serial : Nat) (candidates : List Candidate) :
    lastBounds? k (handles serial candidates) = candidateBounds? k candidates :=
  bounds_handles k serial candidates

theorem boundsOf?_explicit (registered : Snapshot) (resolved : List NodeGroup)
    (index : Table String) (k : String) :
    boundsOf? k ((Plan.explicit registered resolved).commit registered index).groups =
      (lastBounds? k resolved).or (boundsOf? k registered.groups) := by
  rw [groups_explicit, boundsOf?_placeGroups]

/-- Auto discovery leaves pinned names to themselves, and all others have the
bounds selected last. -/
theorem boundsOf?_auto (registered : Snapshot) (pinned : List String) (resolved : List NodeGroup)
    (index : Table String) (k : String) :
    boundsOf? k ((Plan.auto registered pinned resolved).commit registered index).groups =
      if k ∈ pinned then boundsOf? k registered.groups else lastBounds? k resolved := by
  rw [Plan.groups_commit (Plan.marked_auto registered pinned resolved), Plan.auto_groups,
    boundsOf?_filter (fun k ↦ k ∈ keys resolved ∨ k ∈ pinned), boundsOf?_placeGroups]
  by_cases hpinned : k ∈ pinned
  · have hnone : lastBounds? k (resolved.filter fun g ↦ g.key ∉ pinned) = none := by
      rw [lastBounds?_eq_none_iff, keys_filter (fun k ↦ k ∉ pinned)]
      simp [hpinned]
    rw [hnone, Option.none_or, if_pos hpinned, if_pos (by simp [hpinned])]
  · have hsame : lastBounds? k (resolved.filter fun g ↦ g.key ∉ pinned) =
        lastBounds? k resolved := by
      unfold lastBounds?
      rw [lastNamed?_filter (fun k ↦ k ∉ pinned) (by simpa using hpinned)]
    rw [hsame, if_neg hpinned]
    by_cases hselected : k ∈ keys resolved
    · obtain ⟨last, hlast⟩ := exists_lastNamed? hselected
      rw [if_pos (by simp [hselected])]
      unfold lastBounds?
      rw [hlast]
      rfl
    · rw [if_neg (by simp [hselected, hpinned]), lastBounds?_eq_none_iff.mpr hselected]

/-! ### Two calls in either order -/

/-- What writing found bounds over others makes of a world, pinning the names of those. -/
structure Overwrites (found : String → Option Bounds) (w w' : World α) : Prop where
  bounds : ∀ k, boundsOf? k w'.registry.groups = (found k).or (boundsOf? k w.registry.groups)
  pinned : ∀ k, k ∈ w'.pinned ↔ k ∈ w.pinned ∨ found k ≠ none

/-- What putting found bounds in the place of all that is not pinned makes of a world. -/
structure Supplants (found : String → Option Bounds) (w w' : World α) : Prop where
  bounds : ∀ k, boundsOf? k w'.registry.groups =
    if k ∈ w.pinned then boundsOf? k w.registry.groups else found k
  pinned : w'.pinned = w.pinned

/-- Worlds with the same registered names, the same bounds for each and the same pinned names. -/
structure World.Concurs (w w' : World α) : Prop where
  names : ∀ k, k ∈ keys w.registry.groups ↔ k ∈ keys w'.registry.groups
  bounds : ∀ name, (w.registry.find? name).map NodeGroup.bounds =
    (w'.registry.find? name).map NodeGroup.bounds
  pinned : ∀ k, k ∈ w.pinned ↔ k ∈ w'.pinned

variable {found selected : String → Option Bounds} {w w₁ w₂ w₁' w₂' : World α}

theorem World.concurs_of_bounds (hbounds : ∀ k, boundsOf? k w.registry.groups =
      boundsOf? k w₁.registry.groups) (hpinned : ∀ k, k ∈ w.pinned ↔ k ∈ w₁.pinned) :
    w.Concurs w₁ where
  names k := by rw [← not_iff_not, ← boundsOf?_eq_none_iff, ← boundsOf?_eq_none_iff, hbounds]
  bounds name := hbounds (Text.lower name)
  pinned := hpinned

/-- A name that is found and written over is pinned by that, so nothing else takes its place. -/
theorem concurs_of_both_orders (hfirst : Overwrites found w w₁) (hsecond : Supplants selected w₁ w₂)
    (hfirst' : Supplants selected w w₁') (hsecond' : Overwrites found w₁' w₂') :
    w₂.Concurs w₂' := by
  refine World.concurs_of_bounds (fun k ↦ ?_) fun k ↦ ?_
  · have hkept : k ∈ w₁.pinned ↔ k ∈ w.pinned ∨ found k ≠ none := hfirst.pinned k
    rw [hsecond.bounds, hsecond'.bounds, hfirst'.bounds, hfirst.bounds]
    cases hfound : found k with
    | some b => rw [if_pos (hkept.mpr (Or.inr (by simp [hfound]))), Option.some_or, Option.some_or]
    | none =>
      simp only [hkept, hfound, Option.none_or, ne_eq, not_true_eq_false, or_false]
  · rw [hsecond.pinned, hfirst.pinned, hsecond'.pinned, hfirst'.pinned]

section

variable {specs : List ExplicitSpec} {candidates : List Candidate} {serial : Nat}
  {index : Table String}

theorem overwrites_of_install
    (h : w₁.books = w.books.install (planFrom (.explicit specs) w candidates serial) index) :
    Overwrites (candidateBounds? · candidates) w w₁ := by
  have hregistry : w₁.registry =
      (Plan.explicit w.registry (handles serial candidates)).commit w.registry index :=
    congrArg Books.registry h
  have hpinned : w₁.pinned =
      w.pinned ++ (keys (handles serial candidates)).filter (· ∉ w.pinned) :=
    congrArg Books.pinned h
  refine ⟨fun k ↦ ?_, fun k ↦ ?_⟩
  · rw [hregistry, boundsOf?_explicit, lastBounds?_handles]
  · rw [hpinned, ← lastBounds?_handles k serial, Ne, lastBounds?_eq_none_iff, not_not,
      List.mem_append, List.mem_filter, decide_eq_true_iff]
    by_cases hk : k ∈ w.pinned
    · simp [hk]
    · simp [hk]

theorem supplants_of_install
    (h : w₁.books = w.books.install (planFrom .auto w candidates serial) index) :
    Supplants (candidateBounds? · candidates) w w₁ := by
  have hregistry : w₁.registry =
      (Plan.auto w.registry w.pinned (handles serial candidates)).commit w.registry index :=
    congrArg Books.registry h
  refine ⟨fun k ↦ ?_, ?_⟩
  · rw [hregistry, boundsOf?_auto, lastBounds?_handles]
  · have hpinned : w₁.pinned = w.pinned ++ [] := congrArg Books.pinned h
    rw [hpinned, List.append_nil]

end

/-! ### Calls on an inventory that stays as it is -/

variable [Balance α] {f : Fleet α} {A : (q : Query) → Except CloudError q.Answer} {o : Operation}
  {cycle : Cycle} {candidates candidates' : List Candidate} {texts : List String}
  {specs : List ExplicitSpec} {during during' later later' : List Event}

/-- A call that succeeds on an inventory that stays as it is, and with which nothing interferes. -/
structure Succeeds (A : (q : Query) → Except CloudError q.Answer) (f : Fleet α) (o : Operation)
    (during : List Event) : Prop extends Steadily A f o during where
  done : ((f.begin o).after during).outcome? f.nextTicket = some .done

/-- The candidates that a cycle finds on an inventory. -/
def Finds (A : (q : Query) → Except CloudError q.Answer) (site : Site) (cycle : Cycle)
    (candidates : List Candidate) : Prop :=
  ∃ listing, (if cycle.needsListing site then A .scaleSets = .ok listing else listing = []) ∧
    cycle.candidates site listing = .ok candidates

theorem Finds.unique {site : Site} (h : Finds A site cycle candidates)
    (h' : Finds A site cycle candidates') : candidates = candidates' := by
  obtain ⟨listing, hlisting, hcandidates⟩ := h
  obtain ⟨listing', hlisting', hcandidates'⟩ := h'
  obtain rfl : listing = listing' := by
    split_ifs at hlisting hlisting'
    · exact Except.ok.inj (hlisting.symm.trans hlisting')
    · exact hlisting.trans hlisting'.symm
  exact Except.ok.inj (hcandidates.symm.trans hcandidates')

theorem Succeeds.installs (h : Succeeds A f o during) (hf : f.Reachable)
    (hstart : f.world.startOperation f.site f.nextTicket o =
      f.world.startErrand f.site f.nextTicket (.fetch cycle)) :
    ∃ candidates serial index, Finds A f.site cycle candidates ∧
      ((f.begin o).after during).world.books =
        f.world.books.install (planFrom cycle f.world candidates serial) index := by
  obtain ⟨⟨listing, candidates, serial, members, hinstalls⟩, -⟩ :=
    hf.installed (by simp) hstart h.attends h.done
  refine ⟨candidates, serial, _, ⟨listing, ?_, hinstalls.goes.candidates⟩, hinstalls.books⟩
  have hheard : if cycle.needsListing f.site then
      (f.heard o during).told f.nextTicket .scaleSets (.ok listing) else listing = [] :=
    hinstalls.goes.heard
  split_ifs at hheard ⊢
  · exact h.answers.told hheard
  · exact hheard

theorem Succeeds.overwrites (h : Succeeds A f (.fetchExplicit texts) during) (hf : f.Reachable)
    (hspecs : ExplicitSpec.parseAll texts = .ok specs) :
    ∃ candidates, Finds A f.site (.explicit specs) candidates ∧
      Overwrites (candidateBounds? · candidates) f.world
        ((f.begin (.fetchExplicit texts)).after during).world := by
  obtain ⟨candidates, serial, index, hfinds, hbooks⟩ :=
    h.installs hf (startOperation_fetchExplicit hspecs _ _ _)
  exact ⟨candidates, hfinds, overwrites_of_install hbooks⟩

theorem Succeeds.supplants (h : Succeeds A f .fetchAuto during) (hf : f.Reachable) :
    ∃ candidates, Finds A f.site .auto candidates ∧
      Supplants (candidateBounds? · candidates) f.world
        ((f.begin .fetchAuto).after during).world := by
  obtain ⟨candidates, serial, index, hfinds, hbooks⟩ := h.installs hf rfl
  exact ⟨candidates, hfinds, supplants_of_install hbooks⟩

/-- Whichever of the two calls comes first, if both succeed in either order on the same inventory
they end with the same names, the same bounds for each and the same pins. -/
theorem commuting (hf : f.Reachable)
    (hfirst : Succeeds A f (.fetchExplicit texts) during)
    (hsecond : Succeeds A ((f.begin (.fetchExplicit texts)).after during) .fetchAuto later)
    (hfirst' : Succeeds A f .fetchAuto during')
    (hsecond' : Succeeds A ((f.begin .fetchAuto).after during') (.fetchExplicit texts) later') :
    World.Concurs
      ((((f.begin (.fetchExplicit texts)).after during).begin .fetchAuto).after later).world
      ((((f.begin .fetchAuto).after during').begin (.fetchExplicit texts)).after later').world := by
  obtain ⟨specs, hspecs⟩ := hf.exists_specs hfirst.done
  have hnext := hf.after (.begin (.fetchExplicit texts) :: during)
  have hnext' := hf.after (.begin .fetchAuto :: during')
  have hsite : ((f.begin (.fetchExplicit texts)).after during).site = f.site :=
    (f.site_after (.begin (.fetchExplicit texts) :: during)).1
  have hsite' : ((f.begin .fetchAuto).after during').site = f.site :=
    (f.site_after (.begin .fetchAuto :: during')).1
  obtain ⟨candidates, hfinds, hover⟩ := hfirst.overwrites hf hspecs
  obtain ⟨selected, hselects, hinstead⟩ := hsecond.supplants hnext
  obtain ⟨selected', hselects', hinstead'⟩ := hfirst'.supplants hf
  obtain ⟨candidates', hfinds', hover'⟩ := hsecond'.overwrites hnext' hspecs
  rw [hsite] at hselects
  rw [hsite'] at hfinds'
  obtain rfl := hselects.unique hselects'
  obtain rfl := hfinds.unique hfinds'
  exact concurs_of_both_orders hover hinstead hinstead' hover'

/-- Scale sets of which two are on, one of them fetched explicitly below in another spelling, and
one has no tags. -/
def crossAccount : Account :=
  let on : Table String := .ofList [("on", "yes"), ("min", "0"), ("max", "4")]
  Account.empty.setScaleSets "rg" [⟨"Pool", on, 1⟩, ⟨"db", on, 1⟩, ⟨"x", .empty, 1⟩]

/-- It has been fetched before what has no tags and a name that is no longer listed. -/
def crossFleet : Fleet Rat :=
  (fresh smallSite (.account crossAccount) .empty none).after
    [.account fun a ↦ a.setScaleSets "rg" [⟨"x", .empty, 1⟩, ⟨"gone", .empty, 1⟩],
      .begin (.fetchExplicit ["2:9:x", "1:5:gone"]), .account fun _ ↦ crossAccount]

def crossAnswer (q : Query) : Except CloudError q.Answer :=
  crossFleet.world.answer "rg" q

theorem reachable_crossFleet : crossFleet.Reachable :=
  ⟨smallSite, .account crossAccount, .empty, none, _, rfl⟩

theorem succeeds_at_once (hbefore : ∀ q, f.world.answer f.site.resourceGroup q = A q)
    (hafter : ∀ q, (f.begin o).world.answer f.site.resourceGroup q = A q)
    (hover : ((f.begin o).outcome? f.nextTicket).any Outcome.isDone = true) :
    Succeeds A f o [] := by
  refine ⟨⟨by simp, fun before hprefix ↦ ?_⟩, Outcome.eq_done hover⟩
  rcases List.prefix_cons_iff.mp hprefix with rfl | ⟨rest, rfl, hnil⟩
  · exact hbefore
  · obtain rfl := List.prefix_nil.mp hnil
    exact hafter

theorem commuting_of_cross :
    let f := (((crossFleet.begin (.fetchExplicit ["1:3:DB"])).after []).begin .fetchAuto).after []
    let f' := (((crossFleet.begin .fetchAuto).after []).begin (.fetchExplicit ["1:3:DB"])).after []
    f.world.Concurs f'.world ∧
      (f.world.registry.groups.map fun g ↦ (g.name, g.bounds)) =
        [("x", ⟨2, 9⟩), ("gone", ⟨1, 5⟩), ("DB", ⟨1, 3⟩), ("Pool", ⟨0, 4⟩)] ∧
      (f'.world.registry.groups.map fun g ↦ (g.name, g.bounds)) =
        [("x", ⟨2, 9⟩), ("gone", ⟨1, 5⟩), ("Pool", ⟨0, 4⟩), ("DB", ⟨1, 3⟩)] := by
  have hfirst : Succeeds crossAnswer crossFleet (.fetchExplicit ["1:3:DB"]) [] :=
    succeeds_at_once (fun q ↦ by cases q <;> rfl) (fun q ↦ by cases q <;> rfl) (by decide +kernel)
  have hsecond : Succeeds crossAnswer ((crossFleet.begin (.fetchExplicit ["1:3:DB"])).after [])
      .fetchAuto [] :=
    succeeds_at_once (fun q ↦ by cases q <;> rfl) (fun q ↦ by cases q <;> rfl) (by decide +kernel)
  have hfirst' : Succeeds crossAnswer crossFleet .fetchAuto [] :=
    succeeds_at_once (fun q ↦ by cases q <;> rfl) (fun q ↦ by cases q <;> rfl) (by decide +kernel)
  have hsecond' : Succeeds crossAnswer ((crossFleet.begin .fetchAuto).after [])
      (.fetchExplicit ["1:3:DB"]) [] :=
    succeeds_at_once (fun q ↦ by cases q <;> rfl) (fun q ↦ by cases q <;> rfl) (by decide +kernel)
  exact ⟨commuting reachable_crossFleet hfirst hsecond hfirst' hsecond', by decide +kernel,
    by decide +kernel⟩

end Fleet

end NodeFleet
