import NodeFleet.Proofs.AutoDiscovery
/-!
Where registered groups come from. Whatever cycles and direct writes a history has made, however
they overlapped, a name is registered once whatever its case; and a group that was not registered
directly was made by a cycle from a spec or from size tags, whose bounds leave room between them.
-/

set_option autoImplicit false
set_option relaxedAutoImplicit false

namespace NodeFleet

/-- Bounds with room between them. -/
def Bounds.Proper (b : Bounds) : Prop := b.min < b.max

/-! ### Specs -/

theorem ExplicitSpec.lt_of_parseAll {texts : List String} {specs : List ExplicitSpec}
    (h : parseAll texts = .ok specs) : ∀ s ∈ specs, s.min < s.max := by
  have hparsed : List.Forall₂ (fun text s ↦ parse text = .ok s) texts specs :=
    forall₂_of_mapM h
  intro s hs
  obtain ⟨i, hi, rfl⟩ := List.mem_iff_getElem.mp hs
  exact lt_of_parse ((List.forall₂_iff_get.mp hparsed).2 i (hparsed.length_eq ▸ hi) hi)

/-- The explicit specs of a list come from the texts of explicit specs. -/
theorem DiscoverySpec.explicit_of_parseAll {explicit selectors : List String}
    {specs : List DiscoverySpec} (h : parseAll explicit selectors = .ok specs) :
    ExplicitSpec.parseAll explicit = .ok (specs.filterMap explicit?) := by
  unfold parseAll at h
  cases hnamed : ExplicitSpec.parseAll explicit with
  | error e =>
    rw [hnamed] at h
    cases h
  | ok named =>
    cases hmatched : Selector.parseAll selectors with
    | error e =>
      rw [hnamed, hmatched] at h
      cases h
    | ok matched =>
      rw [hnamed, hmatched] at h
      obtain rfl := Except.ok.inj h
      have hleft : explicit? ∘ DiscoverySpec.explicit = some := rfl
      have hright : (matched.map DiscoverySpec.selector).filterMap explicit? = [] := by
        simp [List.filterMap_map, explicit?]
      rw [List.filterMap_append, List.filterMap_map, hleft, List.filterMap_some, hright,
        List.append_nil]

theorem placeGroup_subset {g h : NodeGroup} {groups : List NodeGroup}
    (hm : h ∈ (placeGroup g groups).1) : h = g ∨ h ∈ groups := by
  induction groups with
  | nil => exact Or.inl (List.mem_singleton.mp hm)
  | cons first rest ih =>
    rw [placeGroup_cons] at hm
    split_ifs at hm
    · exact Or.inr hm
    · exact (List.mem_cons.mp hm).imp_right (List.mem_cons_of_mem _)
    · rcases List.mem_cons.mp hm with rfl | hm
      · exact Or.inr List.mem_cons_self
      · exact (ih hm).imp_right (List.mem_cons_of_mem _)

theorem placeGroups_subset {h : NodeGroup} {groups placed : List NodeGroup}
    (hm : h ∈ (placeGroups groups placed).1) : h ∈ placed ∨ h ∈ groups := by
  induction placed generalizing groups with
  | nil => exact Or.inr hm
  | cons g rest ih =>
    rw [placeGroups_cons] at hm
    rcases ih hm with hm | hm
    · exact Or.inl (List.mem_cons_of_mem _ hm)
    · rcases placeGroup_subset hm with rfl | hm
      · exact Or.inl List.mem_cons_self
      · exact Or.inr hm

namespace Fleet

open NodeFleet.Discovery NodeFleet.Quota

/-- Every explicit spec of a configured site leaves room between its bounds. -/
theorem Site.lt_of_ofConfig {c : Config} {site : Site} (h : Site.ofConfig c = .ok site) :
    ∀ s ∈ site.explicitSpecs, s.min < s.max := by
  unfold Site.ofConfig at h
  split_ifs at h
  cases hspecs : DiscoverySpec.parseAll c.nodeGroups c.autoDiscovery with
  | error e =>
    rw [hspecs] at h
    cases h
  | ok specs =>
    rw [hspecs] at h
    obtain rfl := Except.ok.inj h
    exact ExplicitSpec.lt_of_parseAll (DiscoverySpec.explicit_of_parseAll hspecs)

/-! ### Candidates and their handles -/

/-- A cycle whose specs leave room between their bounds. -/
def Cycle.Proper : Cycle → Prop
  | explicit specs => ∀ s ∈ specs, s.min < s.max
  | auto => True

theorem Operation.proper_cycles {site : Site} (hsite : ∀ s ∈ site.explicitSpecs, s.min < s.max)
    {o : Operation} {c : Cycle} (hc : c ∈ o.cycles site) : c.Proper := by
  cases o with
  | fetchExplicit texts =>
    dsimp only [cycles] at hc
    cases hparse : ExplicitSpec.parseAll texts with
    | error e =>
      rw [hparse] at hc
      cases hc
    | ok specs =>
      rw [hparse] at hc
      obtain rfl := List.mem_singleton.mp hc
      exact ExplicitSpec.lt_of_parseAll hparse
  | create =>
    rcases List.mem_cons.mp hc with rfl | hc
    · exact hsite
    · obtain rfl := List.mem_singleton.mp hc
      trivial
  | fetchAuto | refresh | forceRefresh | refreshEvery millis =>
    obtain rfl := List.mem_singleton.mp hc
    trivial
  | _ => cases hc

theorem Cycle.Proper.candidates {site : Site} {c : Cycle} (h : c.Proper)
    {listing : List ScaleSet} {candidates : List Candidate}
    (hc : c.candidates site listing = .ok candidates) : ∀ x ∈ candidates, x.bounds.Proper := by
  cases c with
  | explicit specs =>
    obtain rfl := Except.ok.inj hc
    intro x hx
    obtain ⟨s, hs, rfl⟩ := List.mem_map.mp hx
    exact h s (List.mem_of_mem_filter hs)
  | auto =>
    have hpairs : List.Forall₂ (fun s x ↦ candidate s = .ok x) (site.selected listing)
        candidates := forall₂_of_mapM hc
    intro x hx
    obtain ⟨i, hi, rfl⟩ := List.mem_iff_getElem.mp hx
    have hx := (List.forall₂_iff_get.mp hpairs).2 i (hpairs.length_eq ▸ hi) hi
    exact lt_of_sizeBounds (gives_of_candidate hx 0 defaultSizePeriod).2

/-- A handle has the bounds of a candidate, and its serial number is in the row of the handles. -/
theorem mem_handles {serial : Nat} {candidates : List Candidate} {g : NodeGroup}
    (h : g ∈ handles serial candidates) :
    (∃ c ∈ candidates, g.bounds = c.bounds) ∧ serial ≤ g.serial ∧
      g.serial < serial + candidates.length := by
  induction candidates generalizing serial with
  | nil => cases h
  | cons c rest ih =>
    rcases List.mem_cons.mp h with rfl | h
    · exact ⟨⟨c, List.mem_cons_self, rfl⟩, Nat.le_refl _, by simp⟩
    · obtain ⟨⟨c', hc', hbounds⟩, hle, hlt⟩ := ih h
      refine ⟨⟨c', List.mem_cons_of_mem _ hc', hbounds⟩, Nat.le_of_succ_le hle, ?_⟩
      rw [List.length_cons]
      omega

/-! ### Books -/

theorem plan_subset {cycle : Cycle} {registered : Snapshot} {pinned : List String}
    {resolved : List NodeGroup} {g : NodeGroup}
    (hg : g ∈ (cycle.plan registered pinned resolved).groups) :
    g ∈ resolved ∨ g ∈ registered.groups := by
  cases cycle with
  | explicit specs => exact placeGroups_subset hg
  | auto =>
    rcases placeGroups_subset (List.mem_of_mem_filter hg) with hg | hg
    · exact Or.inl (List.mem_of_mem_filter hg)
    · exact Or.inr hg

/-- The handles that a turn makes for what its listing holds. -/
def Turn.Makes (site : Site) (t : Turn) (g : NodeGroup) : Prop :=
  ∃ listing candidates, t.brief.cycle.candidates site listing = .ok candidates ∧
    g ∈ handles t.brief.serial candidates

theorem Turn.effect_subset {site : Site} {planned ended : Books} {t : Turn} {g : NodeGroup}
    (hg : g ∈ (t.effect site planned ended).registry.groups) :
    t.Makes site g ∨ g ∈ planned.registry.groups ∨ g ∈ ended.registry.groups := by
  unfold effect at hg
  rcases ho : t.outcome site planned with e | ⟨plan, index⟩
  · rw [ho] at hg
    exact Or.inr (Or.inr hg)
  · rw [ho] at hg
    obtain ⟨candidates, members, hcandidates, rfl, -⟩ := Cycle.outcome_eq_ok.mp ho
    obtain ⟨listing, -, hlisted⟩ : ∃ listing, t.brief.cycle.listing site t.inventory = .ok listing ∧
        t.brief.cycle.candidates site listing = .ok candidates := by
      cases hl : t.brief.cycle.listing site t.inventory with
      | error e =>
        rw [hl] at hcandidates
        cases hcandidates
      | ok listing => exact ⟨listing, rfl, by rwa [hl] at hcandidates⟩
    change g ∈ (Plan.commit _ ended.registry index).groups at hg
    unfold Plan.commit Plan.installed? at hg
    split_ifs at hg
    · exact Or.inr (Or.inr hg)
    · rcases plan_subset hg with hg | hg
      · exact Or.inl ⟨listing, candidates, hlisted, hg⟩
      · exact Or.inr (Or.inl hg)

theorem Write.Orderly.subset {x : Write} (hx : x.Orderly) {s : Snapshot} {g : NodeGroup}
    (hg : g ∈ (x.apply s).groups) : x = .register g ∨ g ∈ s.groups := by
  cases x with
  | register h =>
    change g ∈ (s.register h).1.groups at hg
    rw [groups_register] at hg
    exact (placeGroup_subset hg).imp_left fun he ↦ congrArg Write.register he.symm
  | unregister name =>
    change g ∈ (s.unregister name).1.groups at hg
    rw [groups_unregister] at hg
    exact Or.inr (List.mem_of_mem_filter hg)
  | replace groups instances => exact hx.elim

section

variable {P : NodeGroup → Prop} {site : Site}

/-- What holds of every group that is registered directly stays true of all groups. -/
theorem forall_overwritten {xs : List Write} {b : Books} (hb : ∀ g ∈ b.registry.groups, P g)
    (hx : ∀ x ∈ xs, x.Orderly) (hP : ∀ g, .register g ∈ xs → P g) :
    ∀ g ∈ (xs.foldl Books.write b).registry.groups, P g := by
  induction xs generalizing b with
  | nil => exact hb
  | cons x rest ih =>
    refine ih ?_ (fun y hy ↦ hx y (List.mem_cons_of_mem _ hy))
      fun g hg ↦ hP g (List.mem_cons_of_mem _ hg)
    intro g hg
    rcases (hx x List.mem_cons_self).subset hg with rfl | hg
    · exact hP g List.mem_cons_self
    · exact hb g hg

/-- What holds of every group that is registered directly or made by a turn holds of all groups. -/
theorem forall_booksAfter {deeds : List Deed} {b : Books} (hb : ∀ g ∈ b.registry.groups, P g)
    (hx : ∀ x ∈ deeds.flatMap Deed.writes, x.Orderly)
    (hP : ∀ g, .register g ∈ deeds.flatMap Deed.writes → P g)
    (hmade : ∀ t ∈ deeds.filterMap Deed.turn?, ∀ g, t.Makes site g → P g) :
    ∀ g ∈ (booksAfter site b deeds).registry.groups, P g := by
  induction deeds generalizing b with
  | nil => exact hb
  | cons d rest ih =>
    rw [List.flatMap_cons] at hx hP
    have hxd : ∀ x ∈ d.writes, x.Orderly := fun x h ↦ hx x (List.mem_append_left _ h)
    have hPd : ∀ g, .register g ∈ d.writes → P g := fun g h ↦ hP g (List.mem_append_left _ h)
    have hrest : ∀ t ∈ rest.filterMap Deed.turn?, t ∈ (d :: rest).filterMap Deed.turn? := by
      intro t ht
      rw [List.filterMap_cons]
      split
      · exact ht
      · exact List.mem_cons_of_mem _ ht
    refine ih (b := d.after site b) ?_ (fun x h ↦ hx x (List.mem_append_right _ h))
      (fun g h ↦ hP g (List.mem_append_right _ h)) fun t ht ↦ hmade t (hrest t ht)
    intro g hg
    cases d with
    | write x =>
      rcases (hxd x (List.mem_singleton_self x)).subset hg with rfl | hg
      · exact hPd g (List.mem_singleton_self _)
      · exact hb g hg
    | turn t =>
      rcases t.effect_subset hg with hg | hg | hg
      · exact hmade t List.mem_cons_self g hg
      · exact hb g hg
      · exact forall_overwritten hb hxd hPd g hg

end

variable {α : Type}

/-- Every registered group was registered directly or made by a cycle that has ended. -/
theorem World.Kept.forall_groups {H : Lore} {site : Site} {w : World α} (h : w.Kept H site)
    {P : NodeGroup → Prop} (hP : ∀ g, .register g ∈ w.journal.writes → P g)
    (hmade : ∀ t ∈ w.journal.turns, ∀ g, t.Makes site g → P g) :
    ∀ g ∈ w.registry.groups, P g := by
  have hbooks : w.registry = (w.journal.books site).registry := congrArg Books.registry h.books
  rw [hbooks]
  refine forall_overwritten (forall_booksAfter ?_ ?_ ?_ hmade) ?_ ?_
  · exact fun g hg ↦ absurd hg List.not_mem_nil
  · exact fun x hx ↦ h.orderly x (List.mem_append_left _ hx)
  · exact fun g hg ↦ hP g (List.mem_append_left _ hg)
  · exact fun x hx ↦ h.orderly x (List.mem_append_right _ hx)
  · exact fun g hg ↦ hP g (List.mem_append_right _ hg)

variable [Balance α]

/-! ### Histories -/

/-- Whether the group is the handle of a direct registration in the history. -/
def Registered (f : Fleet α) (events : List Event) (g : NodeGroup) : Prop :=
  ∃ before c, before ++ [.register c] <+: events ∧
    g = ((f.after before).world.newGroup c defaultSizePeriod).2

section

variable (site : Site) (cloud : Cloud) (files : Files) (quotas : Option (Quotas α))

/-- A registration in the journal was made by an event. -/
theorem registered_of_mem_writes {events : List Event} (he : ∀ e ∈ events, e.Orderly)
    {g : NodeGroup}
    (hg : .register g ∈ ((fresh site cloud files quotas).after events).world.journal.writes) :
    (fresh site cloud files quotas).Registered events g := by
  induction events using List.reverseRecOn with
  | nil => cases hg
  | append_singleton before e ih =>
    have hbefore : before <+: before ++ [e] := List.prefix_append _ _
    have hstep := (sound_after site cloud files quotas he hbefore).writes_step
      (tells_lore _ hbefore) (he e (by simp))
      (asked_lore site cloud files quotas (List.prefix_refl _))
    rw [after_concat, hstep] at hg
    rcases List.mem_append.mp hg with hg | hg
    · obtain ⟨earlier, c, hprefix, rfl⟩ := ih (fun x hx ↦ he x (List.mem_append_left _ hx)) hg
      exact ⟨earlier, c, hprefix.trans hbefore, rfl⟩
    · cases e with
      | register c =>
        obtain rfl := Write.register.inj (List.mem_singleton.mp hg)
        exact ⟨before, c, List.prefix_refl _, rfl⟩
      | unregister name => cases List.mem_singleton.mp hg
      | replace cs instances => cases List.mem_singleton.mp hg
      | _ => cases hg

/-- The registered names are distinct whatever their case, so a name finds the only group that has
it; and every group that no direct registration has put there leaves room between its bounds. -/
theorem represented_after {c : Config} (hc : Site.ofConfig c = .ok site) {events : List Event}
    (he : ∀ e ∈ events, e.Orderly) :
    Distinct ((fresh site cloud files quotas).after events).world.registry.groups ∧
      (∀ g ∈ ((fresh site cloud files quotas).after events).world.registry.groups,
        (fresh site cloud files quotas).Registered events g ∨ g.bounds.Proper) ∧
      ∀ name g, ((fresh site cloud files quotas).after events).world.registry.find? name = some g ↔
        g ∈ ((fresh site cloud files quotas).after events).world.registry.groups ∧
          g.Named name := by
  have hkept := kept_after site cloud files quotas he
  refine ⟨hkept.distinct, ?_, ?_⟩
  · refine hkept.forall_groups (P := fun g ↦ _ ∨ g.bounds.Proper) ?_ ?_
    · exact fun g hg ↦ Or.inl (registered_of_mem_writes site cloud files quotas he hg)
    · rintro t ht g ⟨listing, candidates, hcandidates, hg⟩
      obtain ⟨o, -, hcycle⟩ := (hkept.heard t ht).1.1
      have hproper := Operation.proper_cycles (Site.lt_of_ofConfig hc) hcycle
      obtain ⟨⟨x, hx, hbounds⟩, -⟩ := mem_handles hg
      exact Or.inr (hbounds ▸ hproper.candidates hcandidates x hx)
  · intro name g
    constructor
    · exact mem_of_find?
    · rintro ⟨hg, hname⟩
      exact hkept.distinct.find?_eq_some hg hname

end

/-- A configuration that names a group and selects what is on. -/
def mixedConfig : Config where
  cloud := ""
  tenantId := ""
  subscriptionId := ""
  resourceGroup := "rg"
  location := ""
  vmType := "VMSS"
  limits := .unset
  nodeGroups := ["1:3:db"]
  autoDiscovery := ["label:on=yes"]
  refreshInterval := .ofSeconds 60
  inventoryTimeout := .ofSeconds 30
  provider := .mock

def mixedSite : Site :=
  ⟨"rg", .ofSeconds 30, .ofSeconds 60,
    [.explicit ⟨1, 3, "db"⟩, .selector ⟨.insert .empty "on" "yes"⟩]⟩

def mixedFleet : Fleet Rat :=
  fresh mixedSite (.account smallAccount) .empty none

/-- Two specs of one name in two spellings, and a direct registration with bounds that
no spec has. -/
def mixing : List Event :=
  [.begin (.fetchExplicit ["1:3:db", "2:5:DB"]), .register ⟨"pool", ⟨4, 1⟩⟩,
    .elapse 10, .poll 0, .elapse 10, .poll 0]

theorem represented_after_mixing :
    Site.ofConfig mixedConfig = .ok mixedSite ∧
      ((mixedFleet.after mixing).world.registry.groups.map fun g ↦ (g.name, g.bounds)) =
        [("pool", ⟨4, 1⟩), ("DB", ⟨2, 5⟩)] ∧
      Distinct (mixedFleet.after mixing).world.registry.groups ∧
      ∀ g ∈ (mixedFleet.after mixing).world.registry.groups,
        mixedFleet.Registered mixing g ∨ g.bounds.Proper := by
  have horderly : ∀ e ∈ mixing, e.Orderly := by
    simp [mixing, Event.Orderly]
  have hconfigured : Site.ofConfig mixedConfig = .ok mixedSite := rfl
  obtain ⟨hdistinct, hproper, -⟩ :=
    represented_after mixedSite (.account smallAccount) .empty (none : Option (Quotas Rat))
      hconfigured horderly
  exact ⟨hconfigured, by decide +kernel, hdistinct, hproper⟩

end Fleet

end NodeFleet
