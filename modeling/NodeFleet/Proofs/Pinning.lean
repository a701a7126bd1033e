import NodeFleet.Proofs.AutoDiscovery
import NodeFleet.Proofs.Fetches
/-!
Explicit groups are pinned. A fetch that succeeds registers each spec whose scale set is listed with
the bounds of the last spec of its name, and pins the name; and what is pinned stays the very handle
it is, whatever cycles succeed or fail and whatever becomes of the cloud, until another explicit
fetch names it.
-/

set_option autoImplicit false
set_option relaxedAutoImplicit false

namespace NodeFleet

def ExplicitSpec.bounds (s : ExplicitSpec) : Bounds := ⟨s.min, s.max⟩

def ExplicitSpec.key (s : ExplicitSpec) : String := Text.lower s.name

/-- The last of the specs of a name. -/
def lastSpec? (key : String) (specs : List ExplicitSpec) : Option ExplicitSpec :=
  specs.findRev? fun s ↦ s.key = key

namespace Fleet

open NodeFleet.Discovery NodeFleet.Quota

/-! ### Explicit specs and their groups -/

theorem isListed_congr (listing : List ScaleSet) {first second : String}
    (h : Text.SameName first second) : isListed listing first = isListed listing second := by
  unfold isListed
  unfold Text.SameName at h ⊢
  rw [h]

theorem keys_handles (serial : Nat) (candidates : List Candidate) :
    keys (handles serial candidates) = candidates.map fun c ↦ Text.lower c.name := by
  induction candidates generalizing serial with
  | nil => rfl
  | cons c rest ih => exact congrArg (Text.lower c.name :: ·) (ih (serial + 1))

theorem bounds_handles (key : String) (serial : Nat) (candidates : List Candidate) :
    (lastNamed? key (handles serial candidates)).map NodeGroup.bounds =
      (candidates.findRev? fun c ↦ Text.lower c.name = key).map Candidate.bounds := by
  induction candidates generalizing serial with
  | nil => rfl
  | cons c rest ih =>
    have hrest := ih (serial + 1)
    unfold lastNamed? at hrest ⊢
    rw [show handles serial (c :: rest) =
        ⟨serial, c.name, c.bounds, defaultSizePeriod⟩ :: handles (serial + 1) rest from rfl,
      findRev?_cons, findRev?_cons, Option.map_or, Option.map_or, hrest]
    by_cases hc : Text.lower c.name = key
    · simp [NodeGroup.key, hc]
    · simp [NodeGroup.key, hc]

/-- The last candidate of a listed name has the bounds of the last spec of the name. -/
theorem bounds_explicitCandidates {listing : List ScaleSet} {key : String}
    (h : ∀ s : ExplicitSpec, s.key = key → isListed listing s.name = true)
    (specs : List ExplicitSpec) :
    ((explicitCandidates specs listing).findRev? fun c ↦ Text.lower c.name = key).map
      Candidate.bounds = (lastSpec? key specs).map ExplicitSpec.bounds := by
  have hsame : (fun s : ExplicitSpec ↦ isListed listing s.name && decide (s.key = key)) =
      fun s ↦ decide (s.key = key) := by
    funext s
    by_cases hs : s.key = key
    · simp [hs, h s hs]
    · simp [hs]
  unfold explicitCandidates lastSpec?
  rw [findRev?_map, findRev?_filter, Option.map_map]
  exact congrArg (fun p ↦ (specs.findRev? p).map ExplicitSpec.bounds) hsame

theorem mem_keys_explicit {listing : List ScaleSet} {specs : List ExplicitSpec} (serial : Nat)
    (key : String) :
    key ∈ keys (handles serial (explicitCandidates specs listing)) ↔
      ∃ s ∈ specs, s.key = key ∧ isListed listing s.name = true := by
  rw [keys_handles]
  unfold explicitCandidates
  simp only [List.map_map, List.mem_map, List.mem_filter, Function.comp_apply]
  constructor
  · rintro ⟨s, ⟨hs, hlisted⟩, hkey⟩
    exact ⟨s, hs, hkey, hlisted⟩
  · rintro ⟨s, hs, hkey, hlisted⟩
    exact ⟨s, ⟨hs, hlisted⟩, hkey⟩

theorem key_of_lastSpec? {key : String} {specs : List ExplicitSpec} {s : ExplicitSpec}
    (h : lastSpec? key specs = some s) : s ∈ specs ∧ s.key = key :=
  (mem_of_findRev? h).imp_right of_decide_eq_true

/-! ### One turn -/

/-- Whether no explicit fetch among the turns that succeeds names the key. -/
def Unnamed (key : String) (turns : List Turn) : Prop :=
  ∀ x ∈ turns, ∀ specs, x.Fetched specs → ∀ s ∈ specs, s.key ≠ key

variable {site : Site} {b : Books} {H : Lore}

namespace Turn

variable {x : Turn}

/-- What a turn registers and pins that fetches specs. -/
structure Pins (specs : List ExplicitSpec) (listing : List ScaleSet) (before after : Books) :
    Prop where
  pinned : ∀ key, key ∈ after.pinned ↔
    key ∈ before.pinned ∨ ∃ s ∈ specs, s.key = key ∧ isListed listing s.name = true
  registered : ∀ s, lastSpec? s.key specs = some s → isListed listing s.name = true →
    ∃ g ∈ after.registry.groups, g.key = s.key ∧ g.bounds = s.bounds

theorem Faithful.pins (h : x.Faithful site b b) (hheard : x.Heard H site)
    (hd : Distinct b.registry.groups) {specs : List ExplicitSpec} (hx : x.Fetched specs) :
    ∃ listing, x.brief.listed = .ok listing ∧ Pins specs listing b (x.effect site b b) := by
  obtain ⟨hcycle, hr⟩ := hx
  obtain ⟨listing, candidates, members, hlisted, hcandidates, -, heffect⟩ :=
    h.effect_of_done hheard hr
  rw [hcycle] at hcandidates heffect
  obtain rfl : explicitCandidates specs listing = candidates := Except.ok.inj hcandidates
  generalize hresolved : handles x.brief.serial (explicitCandidates specs listing) = resolved
    at heffect
  have hgroups : (x.effect site b b).registry.groups =
      (placeGroups b.registry.groups resolved).1 := by
    rw [heffect]
    exact Plan.groups_commit (Plan.marked_explicit b.registry resolved) _
  have hnamed : ∀ key, key ∈ keys resolved ↔
      ∃ s ∈ specs, s.key = key ∧ isListed listing s.name = true := by
    intro key
    rw [← hresolved]
    exact mem_keys_explicit x.brief.serial key
  refine ⟨listing, hlisted, ?_, ?_⟩
  · intro key
    rw [heffect, ← hnamed]
    show key ∈ b.pinned ++ (keys resolved).filter (· ∉ b.pinned) ↔ _
    rw [List.mem_append, List.mem_filter]
    by_cases hkey : key ∈ b.pinned
    · simp [hkey]
    · simp [hkey]
  · intro s hs hlisted
    have hkey : s.key ∈ keys resolved :=
      (hnamed s.key).mpr ⟨s, (key_of_lastSpec? hs).1, rfl, hlisted⟩
    have hplaced : s.key ∈ keys (placeGroups b.registry.groups resolved).1 := by
      rw [keys_placeGroups hd, List.mem_eraseDups]
      exact List.mem_append_right _ hkey
    obtain ⟨g, hg, hgkey⟩ := List.mem_map.mp hplaced
    refine ⟨g, hgroups ▸ hg, hgkey, ?_⟩
    have hlast := bounds_of_mem_placeGroups hd hg (hgkey ▸ hkey)
    rw [hgkey, ← hresolved, bounds_handles, bounds_explicitCandidates ?_, hs] at hlast
    · exact (Option.some.inj hlast).symm
    · intro s' hs'
      exact (isListed_congr listing hs').trans hlisted

theorem pinned_effect (x : Turn) {key : String} (h : key ∈ b.pinned) :
    key ∈ (x.effect site b b).pinned := by
  unfold effect
  split
  · exact h
  · exact List.mem_append_left _ h

/-- A pinned group stays the very handle it is, unless an explicit fetch names it. -/
theorem Faithful.mem_effect_of_pinned (h : x.Faithful site b b) (hheard : x.Heard H site)
    {g : NodeGroup} (hg : g.key ∈ b.pinned) (hu : Unnamed g.key [x]) :
    g ∈ (x.effect site b b).registry.groups ↔ g ∈ b.registry.groups := by
  by_cases hr : x.result = .ok ()
  · obtain ⟨listing, candidates, members, -, hcandidates, -, heffect⟩ := h.effect_of_done hheard hr
    have hgroups : (x.effect site b b).registry.groups = (x.brief.cycle.plan b.registry b.pinned
        (handles x.brief.serial candidates)).groups := by
      rw [heffect]
      exact Plan.groups_commit (marked_plan _ _ _ _) _
    rw [hgroups]
    cases hcycle : x.brief.cycle with
    | auto => exact mem_auto_of_pinned hg _
    | explicit specs =>
      rw [hcycle] at hcandidates
      obtain rfl : explicitCandidates specs listing = candidates := Except.ok.inj hcandidates
      refine mem_placeGroups_of_notMem (fun hkey ↦ ?_) b.registry.groups
      obtain ⟨s, hs, hname, -⟩ := (mem_keys_explicit x.brief.serial g.key).mp hkey
      exact hu x (List.mem_singleton_self x) specs ⟨hcycle, hr⟩ s hs hname
  · rw [h.effect_of_failed hr]

end Turn

/-! ### Turns one after the other -/

namespace Unwritten

/-- A pinned group stays through turns none of which fetches it explicitly. -/
theorem mem_of_pinned {turns : List Turn} (h : Unwritten site b (turns.map .turn))
    (hheard : ∀ x ∈ turns, x.Heard H site) {g : NodeGroup} (hg : g.key ∈ b.pinned)
    (hu : Unnamed g.key turns) :
    g ∈ (booksAfter site b (turns.map .turn)).registry.groups ↔ g ∈ b.registry.groups := by
  induction turns generalizing b with
  | nil => rfl
  | cons x rest ih =>
    cases h with
    | turn hm ht hrest =>
      have hfirst : Unnamed g.key [x] := fun y hy ↦
        hu y (List.mem_singleton.mp hy ▸ List.mem_cons_self)
      rw [List.map_cons, booksAfter_turn hm,
        ih hrest (fun y hy ↦ hheard y (List.mem_cons_of_mem _ hy)) (x.pinned_effect hg)
          fun y hy ↦ hu y (List.mem_cons_of_mem _ hy)]
      exact ht.mem_effect_of_pinned (hheard x List.mem_cons_self) hg hfirst

end Unwritten

/-! ### The turn of a fetch -/

variable {t : Ticket} {o : Operation} {specs : List ExplicitSpec}

/-- How turns fall apart at the first one of a call that has fetched specs. All that the call has
entered besides is an auto discovery. -/
structure FetchedFirst (t : Ticket) (specs : List ExplicitSpec) (earlier : List Turn) (fetch : Turn)
    (later : List Turn) : Prop where
  absent : ∀ y ∈ earlier, y.brief.ticket ≠ t
  ticket : fetch.brief.ticket = t
  fetched : fetch.Fetched specs
  discovered : ∀ y ∈ later, y.brief.ticket = t → y.HasDiscovered

theorem Operation.HasFetched.first {turns : List Turn}
    (h : o.HasFetched specs (turns.filter fun x ↦ x.brief.ticket = t)) :
    ∃ earlier fetch later, turns = earlier ++ fetch :: later ∧
      FetchedFirst t specs earlier fetch later := by
  generalize hfilter : turns.filter (fun x ↦ decide (x.brief.ticket = t)) = own at h
  cases h with
  | fetch texts hx =>
    obtain ⟨earlier, later, rfl, hearlier, hticket, hlater⟩ := List.filter_eq_cons_iff.mp hfilter
    refine ⟨earlier, _, later, rfl, ?_, by simpa using hticket, hx, ?_⟩
    · exact fun y hy ↦ by simpa using hearlier y hy
    · intro y hy hown
      exact absurd (decide_eq_true hown) (List.filter_eq_nil_iff.mp hlater y hy)
  | create hx hy =>
    obtain ⟨earlier, later, rfl, hearlier, hticket, hlater⟩ := List.filter_eq_cons_iff.mp hfilter
    refine ⟨earlier, _, later, rfl, ?_, by simpa using hticket, hx, ?_⟩
    · exact fun y hy ↦ by simpa using hearlier y hy
    · intro y hmem hown
      have hsecond : y ∈ later.filter fun x ↦ x.brief.ticket = t :=
        List.mem_filter.mpr ⟨hmem, decide_eq_true hown⟩
      rw [hlater] at hsecond
      obtain rfl := List.mem_singleton.mp hsecond
      exact hy

theorem Operation.HasFetched.exists_turn {turns : List Turn}
    (h : o.HasFetched specs (turns.filter fun x ↦ x.brief.ticket = t)) :
    ∃ x ∈ turns, x.brief.ticket = t := by
  obtain ⟨earlier, fetch, later, rfl, hfirst⟩ := h.first
  exact ⟨fetch, by simp, hfirst.ticket⟩

/-- A beginning of the turns in which the ticket has a turn reaches to the first of them. -/
theorem prefix_of_mem {turns earlier later : List Turn} {x : Turn}
    (h : turns <+: earlier ++ x :: later) (hearlier : ∀ y ∈ earlier, y.brief.ticket ≠ t)
    (hmem : ∃ y ∈ turns, y.brief.ticket = t) : earlier ++ [x] <+: turns := by
  have hfirst : earlier ++ [x] <+: earlier ++ x :: later := ⟨later, by simp⟩
  rcases List.prefix_or_prefix_of_prefix hfirst h with hreach | hshort
  · exact hreach
  · rcases List.prefix_concat_iff.mp hshort with rfl | hless
    · exact List.prefix_refl _
    · obtain ⟨y, hy, hticket⟩ := hmem
      exact absurd hticket (hearlier y (hless.subset hy))

/-! ### Histories without direct writes -/

variable {α : Type}

/-- Whether no other call of a history fetches the key explicitly. -/
def Unrivalled (site : Site) (events : List Event) (t : Ticket) (key : String) : Prop :=
  ∀ t' o specs, t' ≠ t → (begun events)[t']? = some o → o.fetched? site = some specs →
    ∀ s ∈ specs, s.key ≠ key

variable [Balance α]

variable {f : Fleet α} {events : List Event}

/-! ### Successful fetches in a history -/

section

variable (site : Site) (cloud : Cloud) (files : Files) (quotas : Option (Quotas α))

variable {earlier later : List Turn} {fetch : Turn} (hi : ∀ e ∈ events, e.Indirect)
  (hturns : ((fresh site cloud files quotas).after events).world.journal.turns =
    earlier ++ fetch :: later)
  (hfirst : FetchedFirst t specs earlier fetch later)

include hi hturns hfirst

/-- The last spec of a listed name has its group from the turn on that fetches it, as long as no
later turn names it. -/
theorem FetchedFirst.pinned :
    ∃ listing, fetch.brief.listed = .ok listing ∧
      ∀ s, lastSpec? s.key specs = some s → isListed listing s.name = true →
        ∃ g : NodeGroup, g.bounds = s.bounds ∧ ∀ before, before <+: events → ∀ rest,
          ((fresh site cloud files quotas).after before).world.journal.turns =
            earlier ++ fetch :: rest → Unnamed s.key rest → ∀ name, Text.SameName name s.name →
              ((fresh site cloud files quotas).after before).world.registry.find? name =
                some g := by
  obtain ⟨hkept, -, hunwritten⟩ :=
    unwritten_turns site cloud files quotas hi (List.prefix_refl events)
  have hheard : fetch.Heard _ site := hkept.heard fetch (by rw [hturns]; simp)
  rw [hturns] at hunwritten
  obtain ⟨hearlier, hlater⟩ := hunwritten.append
  cases hlater with
  | turn hm hfaithful _ =>
    obtain ⟨listing, hlisted, hpins⟩ :=
      hfaithful.pins hheard (hearlier.distinct distinct_empty) hfirst.fetched
    refine ⟨listing, hlisted, ?_⟩
    intro s hs hnamed
    obtain ⟨g, hg, hkey, hbounds⟩ := hpins.registered s hs hnamed
    have hpinned : g.key ∈ (fetch.effect site _ _).pinned :=
      (hpins.pinned g.key).mpr (Or.inr ⟨s, (key_of_lastSpec? hs).1, hkey.symm, hnamed⟩)
    refine ⟨g, hbounds, ?_⟩
    intro before hbefore rest hrest hu name hname
    -- every moment at which the fetch has had its turn starts from the same books
    obtain ⟨hkept', hbooks, hunwritten'⟩ := unwritten_turns site cloud files quotas hi hbefore
    rw [hrest] at hbooks hunwritten'
    obtain ⟨-, hrun⟩ := hunwritten'.append
    cases hrun with
    | turn hm' _ hrun =>
      have hheard' : ∀ y ∈ rest, y.Heard _ site := fun y hy ↦
        hkept'.heard y (by rw [hrest]; simp [hy])
      have hmem := (hrun.mem_of_pinned hheard' hpinned (hkey ▸ hu)).mpr hg
      refine hkept'.distinct.find?_eq_some ?_ ?_
      · have hregistry := congrArg Books.registry hbooks
        rw [List.map_append, List.map_cons, booksAfter_append, booksAfter_turn hm'] at hregistry
        rw [show World.registry _ = _ from hregistry]
        exact hmem
      · exact hkey.trans hname.symm

/-- What no other call names, no later cycle names. -/
theorem FetchedFirst.unnamed {key : String} (hu : Unrivalled site events t key)
    {before : List Event} (hbefore : before <+: events) {rest : List Turn}
    (hrest : ((fresh site cloud files quotas).after before).world.journal.turns =
      earlier ++ fetch :: rest) : Unnamed key rest := by
  have hprefix := turns_after site cloud files quotas (fun e he ↦ (hi e he).orderly) hbefore
  have hkept := (unwritten_turns site cloud files quotas hi hbefore).1
  rw [hturns, hrest] at hprefix
  have hlater : rest <+: later := by simpa using hprefix
  intro y hy specs' hfetched
  have hheard : y.Heard _ site := hkept.heard y (by rw [hrest]; simp [hy])
  obtain ⟨o', ho', hcycle⟩ := hheard.1.1
  rw [hfetched.1] at hcycle
  by_cases hticket : y.brief.ticket = t
  · have hauto := (hfirst.discovered y (hlater.subset hy) hticket).1
    rw [hfetched.1] at hauto
    cases hauto
  · exact hu _ o' specs' hticket ho' (Operation.fetched?_of_mem_cycles hcycle)

variable (ho : (begun events)[t]? = some o) (hspecs : o.fetched? site = some specs)

include ho hspecs

/-- Whenever the call has succeeded, its cycle has ended. -/
theorem FetchedFirst.since {before : List Event} (hbefore : before <+: events)
    (hdone : ((fresh site cloud files quotas).after before).outcome? t = some .done) :
    earlier ++ [fetch] <+: ((fresh site cloud files quotas).after before).world.journal.turns := by
  have hprefix := turns_after site cloud files quotas (fun e he ↦ (hi e he).orderly) hbefore
  rw [hturns] at hprefix
  exact prefix_of_mem hprefix hfirst.absent
    (hasFetched_after site cloud files quotas (fun e he ↦ (hi e he).orderly) ho hspecs hbefore
      hdone).exists_turn

/-- At the moment at which a fetch succeeds, its cycle is the last that has ended. -/
theorem FetchedFirst.returned (hcreate : o ≠ .create) {before : List Event} {e : Event}
    (hbefore : before ++ [e] <+: events)
    (hnone : ((fresh site cloud files quotas).after before).outcome? t = none)
    (hdone : ((fresh site cloud files quotas).after (before ++ [e])).outcome? t = some .done) :
    ((fresh site cloud files quotas).after (before ++ [e])).world.journal.turns =
      earlier ++ [fetch] := by
  have horderly : ∀ x ∈ before ++ [e], x.Orderly := fun x hx ↦ (hi x (hbefore.subset hx)).orderly
  have hsince := hfirst.since site cloud files quotas hi hturns ho hspecs hbefore hdone
  rcases Operation.fetched?_cases hspecs with ⟨texts, rfl, -⟩ | ⟨rfl, -⟩
  · rw [← begun_of_outcome? site cloud files quotas hbefore hdone] at ho
    -- the step enters the only turn of the call, and nothing else
    obtain ⟨specs, x, -, hentered, -, -⟩ :=
      fetched_of_done site cloud files quotas horderly ho hnone hdone
    have hempty := turnsOf_of_undone site cloud files quotas
      (fun x hx ↦ horderly x (List.mem_append_left _ hx)) (List.prefix_append _ _) ho trivial hnone
    rw [hentered] at hsince ⊢
    rcases List.prefix_concat_iff.mp hsince with heq | hshort
    · exact heq.symm
    · -- the fetch would have had its turn already
      have hmem : fetch ∈ ((fresh site cloud files quotas).after before).world.journal.turnsOf t :=
        List.mem_filter.mpr ⟨hshort.subset (by simp), decide_eq_true hfirst.ticket⟩
      rw [hempty] at hmem
      cases hmem
  · exact absurd rfl hcreate

end

end Fleet

end NodeFleet
