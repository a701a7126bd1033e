import NodeFleet.Proofs.Churn
import NodeFleet.Proofs.Installation
import NodeFleet.Proofs.Pinning
import NodeFleet.Proofs.Positions
/-!
Explicit fetches. One that succeeds registers each name that a spec carries and the listing has,
with the bounds of the last such spec, and pins just these names besides those that were pinned; all
other groups stay the handles they were, where they were. One with malformed specs fails for the
first of them and does nothing.
-/

set_option autoImplicit false
set_option relaxedAutoImplicit false

namespace NodeFleet.Fleet

open NodeFleet.Discovery NodeFleet.Quota

variable {α : Type}

/-- The names that specs carry and a listing has, in the order of the specs. -/
def listedKeys (specs : List ExplicitSpec) (listing : List ScaleSet) : List String :=
  (specs.filter fun s ↦ isListed listing s.name).map ExplicitSpec.key

/-- What an explicit fetch has made of a world. -/
structure Registers (specs : List ExplicitSpec) (listing : List ScaleSet) (w w' : World α) :
    Prop where
  /-- A listed name finds a group with the bounds of the last spec of the name. -/
  bounds : ∀ key ∈ listedKeys specs listing, ∃ s g, lastSpec? key specs = some s ∧
    g.bounds = s.bounds ∧ ∀ name, Text.lower name = key → w'.registry.find? name = some g
  pinned : ∀ key, key ∈ w'.pinned ↔ key ∈ w.pinned ∨ key ∈ listedKeys specs listing
  /-- Groups keep their positions; those that no spec names, or none that is listed, stay the
  handles they were. -/
  positions : List.Forall₂ (NodeGroup.StandsFor (listedKeys specs listing)) w.registry.groups
    (w'.registry.groups.take w.registry.groups.length)
  /-- New names follow in the order of their first specs. -/
  order : keys w'.registry.groups = keys w.registry.groups ++
    ((listedKeys specs listing).filter (· ∉ keys w.registry.groups)).eraseDups
  sizes : ∀ g, w'.cell g = w.cell g
  version : w'.registry = w.registry ∨ w'.registry.version = w.registry.version + 1

variable {specs : List ExplicitSpec} {listing : List ScaleSet}

theorem keys_resolved (serial : Nat) (specs : List ExplicitSpec) (listing : List ScaleSet) :
    keys (handles serial (explicitCandidates specs listing)) = listedKeys specs listing := by
  rw [keys_handles]
  unfold explicitCandidates listedKeys
  rw [List.map_map]
  rfl

theorem groups_explicit (registered : Snapshot) (placed : List NodeGroup) (index : Table String) :
    ((Plan.explicit registered placed).commit registered index).groups =
      (placeGroups registered.groups placed).1 :=
  Plan.groups_commit (Plan.marked_explicit registered placed) index

theorem version_commit (p : Plan) (registered : Snapshot) (index : Table String) :
    p.commit registered index = registered ∨
      (p.commit registered index).version = registered.version + 1 := by
  unfold Plan.commit Plan.installed?
  split_ifs
  · exact Or.inl rfl
  · exact Or.inr rfl

theorem registers_of_install {w w' : World α} {serial : Nat} {index : Table String}
    (hbooks : w'.books = w.books.install
      (Plan.explicit w.registry (handles serial (explicitCandidates specs listing))) index)
    (hcells : ∀ g, w'.cell g = w.cell g) : Registers specs listing w w' := by
  have hkeys := keys_resolved serial specs listing
  have hlast : ∀ key ∈ listedKeys specs listing,
      (lastNamed? key (handles serial (explicitCandidates specs listing))).map NodeGroup.bounds =
        (lastSpec? key specs).map ExplicitSpec.bounds := by
    intro key hkey
    obtain ⟨s, hs, rfl⟩ := List.mem_map.mp hkey
    have hlisted : isListed listing s.name = true := by simpa using List.of_mem_filter hs
    rw [bounds_handles]
    refine bounds_explicitCandidates (fun s' hs' ↦ ?_) specs
    exact (isListed_congr listing hs').trans hlisted
  generalize handles serial (explicitCandidates specs listing) = resolved at *
  have hregistry : w'.registry = (Plan.explicit w.registry resolved).commit w.registry index :=
    congrArg Books.registry hbooks
  have hpinned : w'.pinned = w.pinned ++ (keys resolved).filter (· ∉ w.pinned) :=
    congrArg Books.pinned hbooks
  have hgroups : w'.registry.groups = (placeGroups w.registry.groups resolved).1 := by
    rw [hregistry, groups_explicit]
  refine ⟨?_, ?_, ?_, ?_, hcells, ?_⟩
  · intro key hkey
    obtain ⟨g, hfind⟩ := exists_find?_placeGroups (hkeys ▸ hkey) w.registry.groups
    obtain ⟨last, hnamed⟩ := exists_lastNamed? (hkeys ▸ hkey)
    have hbounds := hlast key hkey
    rw [hnamed] at hbounds
    obtain ⟨s, hs, hsame⟩ := Option.map_eq_some_iff.mp hbounds.symm
    refine ⟨s, g.overlaid (ofKey key resolved), hs, ?_, fun name hname ↦ ?_⟩
    · rw [NodeGroup.bounds_overlaid, getLast?_ofKey, hnamed]
      exact hsame.symm
    · obtain rfl := hname
      rw [← hfind, ← hgroups]
      rfl
  · intro key
    rw [hpinned, hkeys, List.mem_append, List.mem_filter]
    by_cases hkey : key ∈ w.pinned
    · simp [hkey]
    · simp [hkey]
  · rw [hgroups, ← hkeys]
    exact standsFor_placeGroups w.registry.groups resolved
  · rw [hgroups, ← hkeys]
    exact keys_placeGroups_append w.registry.groups resolved
  · rw [hregistry]
    exact version_commit _ _ _

/-! ### Calls -/

variable [Balance α] {f : Fleet α} {texts : List String} {during : List Event}

/-- The listing that an explicit fetch goes by, which looks for nothing without specs. -/
def ListedFor (H : Lore) (t : Ticket) (specs : List ExplicitSpec) (listing : List ScaleSet) :
    Prop :=
  if specs.isEmpty then listing = [] else H.told t .scaleSets (.ok listing)

theorem startOperation_fetchExplicit (hspecs : ExplicitSpec.parseAll texts = .ok specs)
    (w : World α) (site : Site) (t : Ticket) :
    w.startOperation site t (.fetchExplicit texts) =
      w.startErrand site t (.fetch (.explicit specs)) := by
  dsimp only [World.startOperation]
  rw [hspecs]

omit [Balance α] in
theorem listedFor_of_needsListing {H : Lore} {site : Site} {t : Ticket}
    (h : if Cycle.needsListing site (.explicit specs) then H.told t .scaleSets (.ok listing)
      else listing = []) : ListedFor H t specs listing := by
  unfold Cycle.needsListing at h
  unfold ListedFor
  cases specs with
  | nil => exact h
  | cons s rest => exact h

omit [Balance α] in
theorem Installed.registers {H : Lore} {site : Site} {t : Ticket} {w w' : World α}
    (h : Installed H site t (.explicit specs) w w') :
    ∃ listing, ListedFor H t specs listing ∧ Registers specs listing w w' := by
  obtain ⟨listing, candidates, serial, members, hinstalls⟩ := h
  obtain rfl : explicitCandidates specs listing = candidates :=
    Except.ok.inj hinstalls.goes.candidates
  exact ⟨listing, listedFor_of_needsListing hinstalls.goes.heard,
    registers_of_install hinstalls.books hinstalls.cells⟩

theorem Reachable.malformed_first (hf : f.Reachable) {before : List String} {text : String}
    {fault : Error} (after : List String)
    (hbefore : ∀ x ∈ before, ∃ s, ExplicitSpec.parse x = .ok s)
    (htext : ExplicitSpec.parse text = .error fault) :
    (f.begin (.fetchExplicit (before ++ text :: after))).outcome? f.nextTicket =
        some (.failed fault) ∧
      (f.begin (.fetchExplicit (before ++ text :: after))).world = f.world := by
  have hparsed : ExplicitSpec.parseAll (before ++ text :: after) = .error fault :=
    mapM_eq_error_iff.mpr ⟨before, text, after, rfl, htext, hbefore⟩
  have hstart : f.world.startOperation f.site f.nextTicket
      (.fetchExplicit (before ++ text :: after)) = (f.world, .finished (.failed fault)) := by
    dsimp only [World.startOperation]
    rw [hparsed]
  refine ⟨?_, ?_⟩
  · rw [outcome?_begin, hf.fresh.2, hstart]
    exact if_pos rfl
  · rw [world_begin, hstart]

omit [Balance α] in
/-- A turn that has fetched specs explicitly registers them. -/
theorem Turn.Faithful.registers {x : Turn} {H : Lore} {site : Site} {w w' : World α}
    (h : x.Faithful site w.books w.books) (hheard : x.Heard H site) (hx : x.Fetched specs)
    (hbooks : w'.books = x.effect site w.books w.books) (hcells : ∀ g, w'.cell g = w.cell g) :
    ∃ listing, ListedFor H x.brief.ticket specs listing ∧ Registers specs listing w w' := by
  obtain ⟨hcycle, hr⟩ := hx
  obtain ⟨listing, candidates, members, hlisted, hcandidates, -, heffect⟩ :=
    h.effect_of_done hheard hr
  have hseen := hheard.listing hlisted
  rw [hcycle] at hcandidates heffect hseen
  obtain rfl : explicitCandidates specs listing = candidates := Except.ok.inj hcandidates
  exact ⟨listing, listedFor_of_needsListing hseen,
    registers_of_install (hbooks.trans heffect) hcells⟩

/-- The step by which an explicit fetch succeeds, in whatever history without direct writes, makes
of the world before it what its specs and its listing say. -/
theorem registers_of_done (site : Site) (cloud : Cloud) (files : Files) (quotas : Option (Quotas α))
    {events : List Event} {e : Event} {t : Ticket} (hi : ∀ x ∈ events ++ [e], x.Indirect)
    (hcall : (begun (events ++ [e]))[t]? = some (.fetchExplicit texts))
    (hbefore : ((fresh site cloud files quotas).after events).outcome? t = none)
    (hdone : ((fresh site cloud files quotas).after (events ++ [e])).outcome? t = some .done) :
    ∃ specs listing, ExplicitSpec.parseAll texts = .ok specs ∧
      ListedFor ((fresh site cloud files quotas).lore (events ++ [e])) t specs listing ∧
      Registers specs listing ((fresh site cloud files quotas).after events).world
        ((fresh site cloud files quotas).after (events ++ [e])).world := by
  have hprefix : events <+: events ++ [e] := List.prefix_append _ _
  have horderly : ∀ x ∈ events ++ [e], x.Orderly := fun x hx ↦ (hi x hx).orderly
  have hsound := sound_after site cloud files quotas horderly hprefix
  have hkept := kept_after site cloud files quotas horderly
  have hw := unwritten_after site cloud files quotas
    fun x hx ↦ hi x (List.mem_append_left _ hx)
  have hw' := unwritten_after site cloud files quotas hi
  have hsite : ((fresh site cloud files quotas).after events).site = site :=
    ((fresh site cloud files quotas).site_after events).1
  obtain ⟨specs, x, hspecs, hentered, rfl, hfetched⟩ :=
    fetched_of_done site cloud files quotas horderly hcall hbefore hdone
  obtain ⟨hfaithful, hbooks⟩ := (hsite ▸ hsound.kept).turn_added hkept hw hw' hentered
  have hheard := hkept.heard x (by simp [hentered])
  rw [after_concat] at hentered hbooks ⊢
  have hcells := cell_of_turns (f := (fresh site cloud files quotas).after events) (e := e)
    fun hsame ↦ by simp [hsame] at hentered
  obtain ⟨listing, hlisted, hregisters⟩ := hfaithful.registers hheard hfetched hbooks hcells
  exact ⟨specs, listing, hspecs, hlisted, hregisters⟩

theorem Reachable.exists_specs (hf : f.Reachable)
    (hdone : ((f.begin (.fetchExplicit texts)).after during).outcome? f.nextTicket = some .done) :
    ∃ specs, ExplicitSpec.parseAll texts = .ok specs := by
  cases hspecs : ExplicitSpec.parseAll texts with
  | error fault =>
    obtain ⟨before, text, after, rfl, htext, hbefore⟩ := mapM_eq_error_iff.mp hspecs
    have hfailed := outcome?_after_of_some (hf.malformed_first after hbefore htext).1 during
    cases hfailed.symm.trans hdone
  | ok specs => exact ⟨specs, rfl⟩

/-- An explicit fetch that succeeds registers what its specs and the listing say: with one snapshot
at most if nothing interferes with it, and by its last step whatever other calls there are. One with
malformed specs fails for the first of them. -/
theorem explicit_fetch (hf : f.Reachable) (texts : List String)
    (hattends : ∀ e ∈ during, e.Attends f.nextTicket) :
    (((f.begin (.fetchExplicit texts)).after during).outcome? f.nextTicket = some .done →
      ∃ specs listing, ExplicitSpec.parseAll texts = .ok specs ∧
        ListedFor (f.heard (.fetchExplicit texts) during) f.nextTicket specs listing ∧
        Registers specs listing f.world ((f.begin (.fetchExplicit texts)).after during).world ∧
        ∀ before, before <+: during →
          ((f.begin (.fetchExplicit texts)).after before).world.registry = f.world.registry ∨
          ((f.begin (.fetchExplicit texts)).after before).world.registry =
            ((f.begin (.fetchExplicit texts)).after during).world.registry) ∧
    (∀ before text after fault, texts = before ++ text :: after →
      (∀ x ∈ before, ∃ s, ExplicitSpec.parse x = .ok s) → ExplicitSpec.parse text = .error fault →
        ((f.begin (.fetchExplicit texts)).after during).outcome? f.nextTicket =
            some (.failed fault) ∧
          (f.begin (.fetchExplicit texts)).world = f.world) ∧
    ∀ (site : Site) (cloud : Cloud) (files : Files) (quotas : Option (Quotas α)) events e t,
      (∀ x ∈ events ++ [e], x.Indirect) →
      (begun (events ++ [e]))[t]? = some (.fetchExplicit texts) →
      ((fresh site cloud files quotas).after events).outcome? t = none →
      ((fresh site cloud files quotas).after (events ++ [e])).outcome? t = some .done →
      ∃ specs listing, ExplicitSpec.parseAll texts = .ok specs ∧
        ListedFor ((fresh site cloud files quotas).lore (events ++ [e])) t specs listing ∧
        Registers specs listing ((fresh site cloud files quotas).after events).world
          ((fresh site cloud files quotas).after (events ++ [e])).world := by
  refine ⟨fun hdone ↦ ?_, ?_, ?_⟩
  · obtain ⟨specs, hspecs⟩ := hf.exists_specs hdone
    obtain ⟨hinstalled, honce⟩ := hf.installed (by simp)
      (startOperation_fetchExplicit hspecs _ _ _) hattends hdone
    obtain ⟨listing, hlisted, hregisters⟩ := hinstalled.registers
    exact ⟨specs, listing, hspecs, hlisted, hregisters, honce⟩
  · rintro before text after fault rfl hbefore htext
    obtain ⟨hfailed, hworld⟩ := hf.malformed_first after hbefore htext
    exact ⟨outcome?_after_of_some hfailed during, hworld⟩
  · intro site cloud files quotas events e t hi hcall hbefore hdone
    exact registers_of_done site cloud files quotas hi hcall hbefore hdone

/-- A name in two spellings with other bounds, a name that is not listed, and a third name. -/
def respelled : List String :=
  ["1:2:pool", "2:5:POOL", "1:3:gone", "1:3:db"]

theorem explicit_fetch_of_respelled :
    let f := smallFleet.after [.register ⟨"pool", ⟨1, 2⟩⟩]
    let f' := (f.begin (.fetchExplicit respelled)).after [.elapse 10, .poll 0, .elapse 10, .poll 0]
    f'.outcome? 0 = some .done ∧
      (∃ specs listing, ExplicitSpec.parseAll respelled = .ok specs ∧
        Registers specs listing f.world f'.world) ∧
      (f.world.registry.groups.map fun g ↦ (g.name, g.bounds)) = [("pool", ⟨1, 2⟩)] ∧
      (f'.world.registry.groups.map fun g ↦ (g.name, g.bounds)) =
        [("POOL", ⟨2, 5⟩), ("db", ⟨1, 3⟩)] ∧
      f'.world.pinned.eraseDups = ["pool", "db"] := by
  intro f f'
  have hover : (f'.outcome? 0).any Outcome.isDone = true := by
    decide +kernel
  have hreachable : f.Reachable :=
    ⟨smallSite, .account smallAccount, .empty, none, [.register ⟨"pool", ⟨1, 2⟩⟩], rfl⟩
  obtain ⟨specs, listing, hspecs, -, hregisters, -⟩ :=
    (explicit_fetch hreachable respelled (by simp [Event.Attends]; rfl)).1 (Outcome.eq_done hover)
  exact ⟨Outcome.eq_done hover, ⟨specs, listing, hspecs, hregisters⟩, by decide +kernel,
    by decide +kernel, by decide +kernel⟩

end NodeFleet.Fleet
