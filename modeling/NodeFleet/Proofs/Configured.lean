import NodeFleet.Proofs.Pinning
/-!
What becomes of the specs that a site configures, when a fleet is created and from then on only
refreshed. A spec whose scale set was listed at the creation keeps its group for good. A spec that
was skipped there is not pinned, so its name is left to auto discovery like any other: it has a
group just when the last discovery selected its scale set, and the group has the bounds of the tags.
The bounds that are configured for it are then overruled as soon as the tags say anything else.
-/

set_option autoImplicit false
set_option relaxedAutoImplicit false

namespace NodeFleet.Fleet

open NodeFleet.Discovery NodeFleet.Quota

variable {site : Site} {b : Books} {H : Lore}

/-! ### Auto cycles and failed ones -/

theorem Turn.pinned_effect_of_auto {x : Turn} (h : x.brief.cycle = .auto) :
    (x.effect site b b).pinned = b.pinned := by
  unfold effect
  rcases ho : x.outcome site b with e | ⟨plan, index⟩
  · rfl
  · obtain ⟨candidates, members, -, rfl, -⟩ := Cycle.outcome_eq_ok.mp ho
    rw [h]
    exact List.append_nil _

namespace Unwritten

variable {turns : List Turn}

theorem pinned_of_auto (h : Unwritten site b (turns.map .turn))
    (hauto : ∀ x ∈ turns, x.brief.cycle = .auto) :
    (booksAfter site b (turns.map .turn)).pinned = b.pinned := by
  induction turns generalizing b with
  | nil => rfl
  | cons x rest ih =>
    cases h with
    | turn hm ht hrest =>
      rw [List.map_cons, booksAfter_turn hm,
        ih hrest fun y hy ↦ hauto y (List.mem_cons_of_mem _ hy)]
      exact Turn.pinned_effect_of_auto (hauto x List.mem_cons_self)

end Unwritten

/-- The last element that has a property, and what comes after it. -/
theorem exists_last {β : Type} {p : β → Prop} {l : List β} (h : ∃ x ∈ l, p x) :
    ∃ before x after, l = before ++ x :: after ∧ p x ∧ ∀ y ∈ after, ¬ p y := by
  induction l using List.reverseRecOn with
  | nil =>
    obtain ⟨x, hx, -⟩ := h
    cases hx
  | append_singleton rest last ih =>
    by_cases hlast : p last
    · exact ⟨rest, last, [], rfl, hlast, fun y hy ↦ absurd hy List.not_mem_nil⟩
    · obtain ⟨x, hx, hp⟩ := h
      rcases List.mem_append.mp hx with hx | hx
      · obtain ⟨before, y, after, rfl, hy, hafter⟩ := ih ⟨x, hx, hp⟩
        refine ⟨before, y, after ++ [last], by simp, hy, ?_⟩
        intro z hz
        rcases List.mem_append.mp hz with hz | hz
        · exact hafter z hz
        · exact List.mem_singleton.mp hz ▸ hlast
      · exact absurd (List.mem_singleton.mp hx ▸ hp) hlast

/-! ### Turns after which every cycle is an auto discovery -/

/-- What the last discovery makes of the books before it, however many cycles fail after it. -/
theorem Unwritten.discovered {first failed : List Turn} {last : Turn}
    (h : Unwritten site .empty ((first ++ last :: failed).map .turn)) (hheard : last.Heard H site)
    (hlast : last.HasDiscovered) (hfailed : ∀ x ∈ failed, x.result ≠ .ok ()) :
    ∃ listing, last.brief.listed = .ok listing ∧
      Discovered site listing (booksAfter site .empty (first.map .turn))
        (booksAfter site .empty ((first ++ last :: failed).map .turn)) := by
  obtain ⟨hfirst, hsecond⟩ := h.append
  cases hsecond with
  | turn hm hfaithful hrest =>
    have hd := hfirst.distinct distinct_empty
    have hc := hfirst.covered distinct_empty covered_empty
    obtain ⟨listing, candidates, members, hlisted, hcandidates, -, heffect⟩ :=
      hfaithful.effect_of_done hheard hlast.2
    rw [hlast.1] at hcandidates heffect
    refine ⟨listing, hlisted, ?_⟩
    rw [List.map_append, List.map_cons, booksAfter_append, booksAfter_turn hm,
      hrest.booksAfter_of_failed hfailed, heffect]
    exact discovered_install hd hc (gives_handles hcandidates _) _

variable {t : Ticket} {specs : List ExplicitSpec} {earlier later : List Turn} {fetch : Turn}

/-- A creation that has succeeded has discovered after its fetch. -/
theorem FetchedFirst.exists_discovered (h : FetchedFirst t specs earlier fetch later)
    (hown : Operation.create.HasFetched specs
      ((earlier ++ fetch :: later).filter fun x ↦ x.brief.ticket = t)) :
    ∃ y ∈ later, y.HasDiscovered := by
  have hnone : earlier.filter (fun x ↦ decide (x.brief.ticket = t)) = [] := by
    rw [List.filter_eq_nil_iff]
    exact fun y hy ↦ by simpa using h.absent y hy
  have hfetch : (fetch :: later).filter (fun x ↦ decide (x.brief.ticket = t)) =
      fetch :: later.filter fun x ↦ decide (x.brief.ticket = t) :=
    List.filter_cons_of_pos (decide_eq_true h.ticket)
  rw [List.filter_append, hnone, List.nil_append, hfetch] at hown
  generalize hrest : later.filter (fun x ↦ decide (x.brief.ticket = t)) = rest at hown
  cases hown with
  | create hx hy =>
    have hmem : _ ∈ later.filter fun x ↦ decide (x.brief.ticket = t) :=
      hrest ▸ List.mem_singleton_self _
    exact ⟨_, List.mem_of_mem_filter hmem, hy⟩

/-- The names that are pinned when one cycle alone has fetched specs. -/
theorem FetchedFirst.pinned_iff (h : FetchedFirst t specs earlier fetch later)
    (hu : Unwritten site .empty ((earlier ++ fetch :: later).map .turn))
    (hheard : fetch.Heard H site) (hearlier : ∀ x ∈ earlier, x.brief.cycle = .auto)
    (hlater : ∀ x ∈ later, x.brief.cycle = .auto) :
    ∃ listing, fetch.brief.listed = .ok listing ∧ ∀ key,
      key ∈ (booksAfter site .empty ((earlier ++ fetch :: later).map .turn)).pinned ↔
        ∃ s ∈ specs, s.key = key ∧ isListed listing s.name = true := by
  obtain ⟨hbefore, hafter⟩ := hu.append
  cases hafter with
  | turn hm hfaithful hrest =>
    obtain ⟨listing, hlisted, hpins⟩ :=
      hfaithful.pins hheard (hbefore.distinct distinct_empty) h.fetched
    refine ⟨listing, hlisted, ?_⟩
    intro key
    rw [List.map_append, List.map_cons, booksAfter_append, booksAfter_turn hm,
      hrest.pinned_of_auto hlater, hpins.pinned, hbefore.pinned_of_auto hearlier]
    simp [Books.empty]

/-! ### Configured specs -/

/-- Whether a group of the spec's name has other bounds than the spec. -/
def Overruled (s : Snapshot) (spec : ExplicitSpec) : Prop :=
  ∃ g ∈ s.groups, g.Named spec.name ∧ g.bounds ≠ spec.bounds

instance (s : Snapshot) (spec : ExplicitSpec) : Decidable (Overruled s spec) :=
  inferInstanceAs (Decidable (∃ g ∈ s.groups, g.Named spec.name ∧ g.bounds ≠ spec.bounds))

/-- What becomes of configured specs, by the listing at the creation and the scale sets that the
last discovery selected. -/
structure Configured (specs : List ExplicitSpec) (created selected : List ScaleSet)
    (s : Snapshot) : Prop where
  listed : ∀ spec, lastSpec? spec.key specs = some spec → isListed created spec.name = true →
    (s.find? spec.name).map NodeGroup.bounds = some spec.bounds
  skipped : ∀ spec ∈ specs, isListed created spec.name = false →
    (s.find? spec.name).map (fun g ↦ Except.ok g.bounds) =
      (selected.findRev? fun z ↦ Text.lower z.name = spec.key).map sizeBounds
  overruled : ∀ spec, lastSpec? spec.key specs = some spec →
    (Overruled s spec ↔ isListed created spec.name = false ∧
      ∃ z, selected.findRev? (fun z ↦ Text.lower z.name = spec.key) = some z ∧
        sizeBounds z ≠ .ok spec.bounds)

theorem find?_eq_none {s : Snapshot} {name : String} (h : s.find? name = none) :
    Text.lower name ∉ keys s.groups := by
  intro hmem
  obtain ⟨g, hg, hkey⟩ := List.mem_map.mp hmem
  have hnot := List.find?_eq_none.mp h g hg
  exact hnot (decide_eq_true hkey)

/-- By name, a group that is not pinned is found just when its scale set was selected. -/
theorem Discovered.find? {listing : List ScaleSet} {after : Books}
    (h : Discovered site listing b after) {name : String} (hp : Text.lower name ∉ b.pinned) :
    (after.registry.find? name).map (fun g ↦ Except.ok g.bounds) =
      ((site.selected listing).findRev? fun z ↦ Text.lower z.name = Text.lower name).map
        sizeBounds := by
  cases hfind : after.registry.find? name with
  | none =>
    have hout : Text.lower name ∉ (site.selected listing).map fun z ↦ Text.lower z.name :=
      fun hmem ↦ find?_eq_none hfind ((h.names _).mpr (Or.inr hmem))
    have hnone : ((site.selected listing).findRev? fun z ↦
        decide (Text.lower z.name = Text.lower name)) = none := by
      rw [List.findRev?_eq_find?_reverse, List.find?_eq_none]
      intro z hz hsame
      exact hout (List.mem_map.mpr ⟨z, List.mem_reverse.mp hz, of_decide_eq_true hsame⟩)
    rw [hnone]
    rfl
  | some g =>
    obtain ⟨hg, hname⟩ := mem_of_find? hfind
    have hkey : g.key = Text.lower name := hname
    have hbounds := h.bounds g hg (hkey ▸ hp)
    rw [hkey] at hbounds
    exact hbounds.symm

theorem Discovered.configured {specs : List ExplicitSpec} {created discovered : List ScaleSet}
    {after : Books} (h : Discovered site discovered b after)
    (hpinned : ∀ key, key ∈ b.pinned ↔ ∃ s ∈ specs, s.key = key ∧ isListed created s.name = true)
    (hlisted : ∀ spec, lastSpec? spec.key specs = some spec →
      isListed created spec.name = true →
        ∃ g : NodeGroup, g.bounds = spec.bounds ∧ after.registry.find? spec.name = some g) :
    Configured specs created (site.selected discovered) after.registry := by
  have hskipped : ∀ spec : ExplicitSpec, isListed created spec.name = false →
      (after.registry.find? spec.name).map (fun g ↦ Except.ok g.bounds) =
        ((site.selected discovered).findRev? fun z ↦ Text.lower z.name = spec.key).map
          sizeBounds := by
    intro spec hout
    refine h.find? fun hkey ↦ ?_
    obtain ⟨s, -, hs, hin⟩ := (hpinned _).mp hkey
    rw [isListed_congr created (show Text.SameName s.name spec.name from hs), hout] at hin
    cases hin
  refine ⟨?_, fun spec _ ↦ hskipped spec, ?_⟩
  · intro spec hspec hin
    obtain ⟨g, hbounds, hfind⟩ := hlisted spec hspec hin
    rw [hfind, Option.map_some, hbounds]
  · intro spec hspec
    cases hin : isListed created spec.name with
    | true =>
      obtain ⟨g, hbounds, hfind⟩ := hlisted spec hspec hin
      refine iff_of_false ?_ fun hout ↦ Bool.noConfusion hout.1
      rintro ⟨other, hother, hnamed, hne⟩
      rw [h.distinct.find?_eq_some hother hnamed] at hfind
      exact hne (Option.some.inj hfind ▸ hbounds)
    | false =>
      have hfound := hskipped spec hin
      constructor
      · rintro ⟨g, hg, hnamed, hne⟩
        rw [h.distinct.find?_eq_some hg hnamed, Option.map_some] at hfound
        obtain ⟨z, hz, hbounds⟩ := Option.map_eq_some_iff.mp hfound.symm
        refine ⟨rfl, z, hz, fun hsame ↦ hne ?_⟩
        exact Except.ok.inj (hbounds.symm.trans hsame)
      · rintro ⟨-, z, hz, hne⟩
        rw [hz, Option.map_some] at hfound
        obtain ⟨g, hg, hbounds⟩ := Option.map_eq_some_iff.mp hfound
        obtain ⟨hmem, hnamed⟩ := mem_of_find? hg
        exact ⟨g, hmem, hnamed, fun hsame ↦ hne (hbounds.symm.trans (congrArg _ hsame))⟩

/-! ### Histories that a creation starts -/

/-- What the turns of a history that a creation starts have heard: what was listed for its fetch
and, at last, for the last discovery that succeeded. -/
structure Surveyed (H : Lore) (site : Site) (turns : List Turn)
    (created discovered : List ScaleSet) : Prop where
  created : ∃ x ∈ turns, x.brief.ticket = 0 ∧ x.Fetched site.explicitSpecs ∧ x.Heard H site ∧
    x.brief.listed = .ok created
  discovered : ∃ before x failed, turns = before ++ x :: failed ∧ x.HasDiscovered ∧ x.Heard H site ∧
    x.brief.listed = .ok discovered ∧ ∀ y ∈ failed, y.result ≠ .ok ()

variable {α : Type} {rest : List Event}

/-- When no later call fetches anything, every other cycle is one of auto discovery. -/
theorem auto_of_asked [Balance α] {f : Fleet α}
    (hrest : ∀ o, .begin o ∈ rest → o.fetched? f.site = none)
    {x : Turn} (hx : x.Heard (f.lore (.begin .create :: rest)) f.site)
    (ht : x.brief.ticket ≠ 0) : x.brief.cycle = .auto := by
  obtain ⟨o, ho, hcycle⟩ := hx.1.1
  cases hc : x.brief.cycle with
  | auto => rfl
  | explicit specs =>
    rw [hc] at hcycle
    have hmem : o ∈ begun rest := by
      obtain ⟨n, hn⟩ := Nat.exists_eq_succ_of_ne_zero ht
      rw [hn] at ho
      exact List.mem_of_getElem? ho
    obtain ⟨e, he, hoperation⟩ := List.mem_filterMap.mp hmem
    cases e with
    | begin o' =>
      obtain rfl := Option.some.inj hoperation
      have hnone := hrest _ he
      rw [Operation.fetched?_of_mem_cycles hcycle] at hnone
      cases hnone
    | _ => cases hoperation

/-- The last discovery of turns in which only a creation has fetched specs: there is one, and the
books before it pin what was listed for the fetch. -/
theorem FetchedFirst.surveyed (h : FetchedFirst 0 site.explicitSpecs earlier fetch later)
    (hu : Unwritten site .empty ((earlier ++ fetch :: later).map .turn))
    (hheard : ∀ x ∈ earlier ++ fetch :: later, x.Heard H site)
    (hearlier : ∀ x ∈ earlier, x.brief.cycle = .auto)
    (hlater : ∀ x ∈ later, x.brief.cycle = .auto) (hrefreshed : ∃ y ∈ later, y.HasDiscovered) :
    ∃ created discovered before, fetch.brief.listed = .ok created ∧
      Surveyed H site (earlier ++ fetch :: later) created discovered ∧
      (∀ key, key ∈ before.pinned ↔
        ∃ s ∈ site.explicitSpecs, s.key = key ∧ isListed created s.name = true) ∧
      Discovered site discovered before
        (booksAfter site .empty ((earlier ++ fetch :: later).map .turn)) := by
  obtain ⟨between, last, failed, rfl, hlast, hnot⟩ := exists_last hrefreshed
  have hfailed : ∀ x ∈ failed, x.result ≠ .ok () := fun x hx hr ↦
    hnot x hx ⟨hlater x (by simp [hx]), hr⟩
  have hsplit : earlier ++ fetch :: (between ++ last :: failed) =
      (earlier ++ fetch :: between) ++ last :: failed := by simp
  have hheardLast := hheard last (by simp)
  have hheardFetch := hheard fetch (by simp)
  have hbetween : FetchedFirst 0 site.explicitSpecs earlier fetch between :=
    ⟨h.absent, h.ticket, h.fetched, fun y hy ↦ h.discovered y (List.mem_append_left _ hy)⟩
  rw [hsplit] at hu ⊢
  obtain ⟨created, hcreated, hpinned⟩ := hbetween.pinned_iff hu.append.1 hheardFetch hearlier
    fun x hx ↦ hlater x (List.mem_append_left _ hx)
  obtain ⟨discovered, hdiscovered, hmade⟩ := hu.discovered hheardLast hlast hfailed
  refine ⟨created, discovered, _, hcreated, ⟨?_, ?_⟩, hpinned, hmade⟩
  · exact ⟨fetch, by simp, h.ticket, h.fetched, hheardFetch, hcreated⟩
  · exact ⟨_, last, failed, rfl, hlast, hheardLast, hdiscovered, hfailed⟩

variable [Balance α]

/-- Once a creation has succeeded, and as long as no call fetches anything explicitly, the groups of
the configured names go by what was listed at the creation and by the last discovery. -/
theorem configured_after (site : Site) (cloud : Cloud) (files : Files) (quotas : Option (Quotas α))
    (hi : ∀ e ∈ .begin .create :: rest, e.Indirect)
    (hrest : ∀ o, .begin o ∈ rest → o.fetched? site = none)
    (hdone : ((fresh site cloud files quotas).after (.begin .create :: rest)).outcome? 0 =
      some .done) :
    ∃ created discovered,
      Surveyed ((fresh site cloud files quotas).lore (.begin .create :: rest)) site
        ((fresh site cloud files quotas).after (.begin .create :: rest)).world.journal.turns
        created discovered ∧
      Configured site.explicitSpecs created (site.selected discovered)
        ((fresh site cloud files quotas).after (.begin .create :: rest)).world.registry := by
  generalize hevents : Event.begin .create :: rest = events at hi hdone ⊢
  have hcall : (begun events)[0]? = some .create := by
    rw [← hevents]
    rfl
  have hall : events <+: events := List.prefix_refl events
  obtain ⟨hkept, hbooks, hunwritten⟩ := unwritten_turns site cloud files quotas hi hall
  have hown := hasFetched_after site cloud files quotas (fun e he ↦ (hi e he).orderly) hcall rfl
    hall hdone
  have hauto : ∀ x : Turn, x.Heard ((fresh site cloud files quotas).lore events) site →
      x.brief.ticket ≠ 0 → x.brief.cycle = .auto := by
    rw [← hevents]
    exact fun x hx ht ↦ auto_of_asked (f := fresh site cloud files quotas) hrest hx ht
  obtain ⟨earlier, fetch, later, hturns, hfirst⟩ := hown.first
  obtain ⟨created, hcreated, hregistered⟩ := hfirst.pinned site cloud files quotas hi hturns
  have hheard := hkept.heard
  unfold Journal.turnsOf at hown
  rw [hturns] at hheard hbooks hunwritten hown ⊢
  -- the fetch of the creation is the only explicit cycle: its ticket is 0, and it fetches just once
  have hearlier : ∀ x ∈ earlier, x.brief.cycle = .auto := fun x hx ↦
    hauto x (hheard x (List.mem_append_left _ hx)) (hfirst.absent x hx)
  have hlater : ∀ x ∈ later, x.brief.cycle = .auto := by
    intro x hx
    by_cases ht : x.brief.ticket = 0
    · exact (hfirst.discovered x hx ht).1
    · exact hauto x (hheard x (by simp [hx])) ht
  have hunnamed : ∀ key, Unnamed key later := by
    intro key x hx specs hfetched
    have hcycle := hfetched.1
    rw [hlater x hx] at hcycle
    cases hcycle
  obtain ⟨listing, discovered, before, hlisted, hsurveyed, hpinned, hmade⟩ :=
    hfirst.surveyed hunwritten hheard hearlier hlater (hfirst.exists_discovered hown)
  obtain rfl : created = listing := Except.ok.inj (hcreated.symm.trans hlisted)
  refine ⟨created, discovered, hsurveyed, ?_⟩
  have hregistry : World.registry _ = _ := congrArg Books.registry hbooks
  rw [hregistry]
  refine hmade.configured hpinned fun spec hspec hin ↦ ?_
  obtain ⟨g, hbounds, hfind⟩ := hregistered spec hspec hin
  refine ⟨g, hbounds, ?_⟩
  rw [← hregistry]
  exact hfind events hall _ hturns (hunnamed _) spec.name rfl

/-- A site with a spec for a scale set that its account does not have yet. -/
def earlySite : Site :=
  ⟨"rg", .ofSeconds 30, .ofSeconds 60,
    [.explicit ⟨1, 3, "db"⟩, .selector ⟨.insert .empty "on" "yes"⟩]⟩

def earlyFleet : Fleet Rat :=
  fresh earlySite (.account (Account.empty.setScaleSets "rg" [])) .empty none

/-- The scale set comes after the creation, with tags that select it. -/
def overruling : List Event :=
  let tags : Table String := .insert (.insert (.insert .empty "on" "yes") "min" "0") "max" "4"
  [.begin .create, .account (·.setScaleSets "rg" [⟨"db", tags, 1⟩]), .begin .forceRefresh]

theorem configured_after_overruling :
    (∃ created discovered, Configured [⟨1, 3, "db"⟩] created (earlySite.selected discovered)
      (earlyFleet.after overruling).world.registry) ∧
      ((earlyFleet.after overruling).world.registry.groups.map fun g ↦ (g.name, g.bounds)) =
        [("db", ⟨0, 4⟩)] := by
  have hindirect : ∀ e ∈ overruling, e.Indirect := by
    simp [overruling, Event.Indirect]
  have hover : ((earlyFleet.after overruling).outcome? 0).any Outcome.isDone = true := by
    decide +kernel
  obtain ⟨created, discovered, -, hconfigured⟩ :=
    configured_after earlySite (.account (Account.empty.setScaleSets "rg" [])) .empty none
      hindirect (by simp [Operation.fetched?]) (Outcome.eq_done hover)
  exact ⟨⟨created, discovered, hconfigured⟩, by decide +kernel⟩

theorem overruled_by_discovery :
    ((earlyFleet.after overruling).outcome? 0).any Outcome.isDone = true ∧
      ¬ ∀ spec, lastSpec? spec.key earlySite.explicitSpecs = some spec →
        ¬ Overruled (earlyFleet.after overruling).world.registry spec := by
  refine ⟨by decide +kernel, fun h ↦ ?_⟩
  exact h ⟨1, 3, "db"⟩ rfl (by decide +kernel)

end NodeFleet.Fleet
