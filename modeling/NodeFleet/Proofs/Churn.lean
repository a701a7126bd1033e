import Mathlib.Data.List.Find
import NodeFleet.Proofs.Handles
import NodeFleet.Proofs.Renewal
/-!
No churn. An auto discovery that succeeds touches nothing without a reason: a group that stays with
its bounds stays the very handle, with the size that is known of it; one with other bounds gets, in
its place, a handle that nobody has had, of unknown size; and the version goes up by one for a
difference and only then. So once more on the same inventory it changes nothing.
-/

set_option autoImplicit false
set_option relaxedAutoImplicit false

namespace NodeFleet.Fleet

open NodeFleet.Discovery NodeFleet.Quota

/-! ### Turns of auto discovery -/

/-- Whether the selected scale sets of a listing have distinct names, whatever their case. -/
def Site.Unambiguous (site : Site) (listing : List ScaleSet) : Prop :=
  ((site.selected listing).map fun s ↦ Text.lower s.name).Nodup

instance (site : Site) (listing : List ScaleSet) : Decidable (site.Unambiguous listing) :=
  inferInstanceAs (Decidable (List.Nodup _))

/-- What an auto discovery has found, and what it made of the books by that. An explicitly
configured name is left to itself, be it registered or not. -/
structure Found (H : Lore) (site : Site) (listing : List ScaleSet) (x : Turn)
    (before after : Books) : Prop where
  listed : x.brief.listed = .ok listing
  heard : if Cycle.needsListing site .auto then
      H.told x.brief.ticket .scaleSets (.ok listing)
    else listing = []
  pinned : after.pinned = before.pinned
  explicit : ∀ g : NodeGroup, g.key ∈ before.pinned →
    (g ∈ after.registry.groups ↔ g ∈ before.registry.groups)
  names : ∀ k, k ∈ keys after.registry.groups ↔
    k ∈ keys before.registry.groups ∧ k ∈ before.pinned ∨
      k ∈ ((site.selected listing).map fun s ↦ Text.lower s.name) ∧ k ∉ before.pinned
  bounds : ∀ g ∈ after.registry.groups, g.key ∉ before.pinned →
    ((site.selected listing).findRev? fun s ↦ Text.lower s.name = g.key).map sizeBounds =
      some (.ok g.bounds)
  indexed : Indexed H x after.registry

namespace Turn

variable {site : Site} {b : Books} {H : Lore} {x : Turn}

/-- Whether another turn went by the same listing and heard the same members of a group, if it asked
for them too. -/
structure Alike (x x' : Turn) : Prop where
  listed : x'.brief.listed = x.brief.listed
  told : ∀ name answer answer', (name, answer) ∈ x.told → (name, answer') ∈ x'.told →
    answer' = answer

theorem Alike.members {x' : Turn} (h : x.Alike x') {g : NodeGroup}
    (hg : g.name ∈ x.told.map Prod.fst) (hg' : g.name ∈ x'.told.map Prod.fst) :
    x'.members g = x.members g := by
  obtain ⟨answer, hanswer⟩ := exists_lookup hg
  obtain ⟨answer', hanswer'⟩ := exists_lookup hg'
  have hsame := h.told _ _ _ (mem_of_lookup hanswer) (mem_of_lookup hanswer')
  unfold Turn.members Turn.inventory
  dsimp only
  rw [hanswer, hanswer', hsame]

/-- An auto discovery that succeeds installs the plan of the handles that it has made. -/
theorem Faithful.auto_effect (h : x.Faithful site b b) (hheard : x.Heard H site)
    (hcycle : x.brief.cycle = .auto) (hr : x.result = .ok ()) :
    ∃ listing index, x.brief.listed = .ok listing ∧
      (if Cycle.needsListing site .auto then H.told x.brief.ticket .scaleSets (.ok listing)
        else listing = []) ∧
      List.Forall₂ Gives (site.selected listing) (x.brief.handles site) ∧
      x.effect site b b = ⟨(Plan.auto b.registry b.pinned (x.brief.handles site)).commit b.registry
        index, b.pinned⟩ := by
  obtain ⟨listing, candidates, members, hlisted, hcandidates, -, heffect⟩ :=
    h.effect_of_done hheard hr
  have htold := hheard.listing hlisted
  have hresolved : (x.brief.listed.bind fun l ↦ x.brief.cycle.candidates site l) =
      .ok candidates := by
    rw [hlisted]
    exact hcandidates
  have hhandles : x.brief.handles site = handles x.brief.serial candidates := by
    unfold Brief.handles
    rw [hresolved]
  rw [hcycle] at htold hcandidates heffect
  rw [hhandles]
  refine ⟨listing, memberIndex members, hlisted, htold, gives_handles hcandidates _, ?_⟩
  rw [heffect]
  exact congrArg (Books.mk _) (List.append_nil _)

theorem Faithful.found (h : x.Faithful site b b) (hheard : x.Heard H site)
    (hcycle : x.brief.cycle = .auto) (hr : x.result = .ok ()) (hd : Distinct b.registry.groups) :
    ∃ listing, Found H site listing x b (x.effect site b b) := by
  obtain ⟨listing, index, hlisted, htold, hgives, heffect⟩ := h.auto_effect hheard hcycle hr
  have hindexed := h.indexed hheard hr (x.distinct_effect hd hd)
  have hgroups : (x.effect site b b).registry.groups =
      (Plan.auto b.registry b.pinned (x.brief.handles site)).groups := by
    rw [heffect]
    exact Plan.groups_commit (Plan.marked_auto _ _ _) index
  have hpins : (x.effect site b b).pinned = b.pinned := by
    rw [heffect]
  refine ⟨listing, hlisted, htold, hpins, ?_, ?_, ?_, hindexed⟩
  · intro g hg
    rw [hgroups]
    exact mem_auto_of_pinned hg _
  · intro k
    rw [hgroups, mem_keys_auto hd, keys_of_gives hgives]
    tauto
  · intro g hg hpinned
    rw [hgroups] at hg
    exact sizeBounds_of_mem_auto hd hgives hg hpinned

theorem Faithful.renewed (h : x.Faithful site b b) (hheard : x.Heard H site)
    (hcycle : x.brief.cycle = .auto) (hr : x.result = .ok ()) (hd : Distinct b.registry.groups)
    {listing : List ScaleSet} (hlisted : x.brief.listed = .ok listing)
    (hnames : site.Unambiguous listing) :
    Renewed (· ∈ x.brief.handles site) b.registry (x.effect site b b).registry := by
  obtain ⟨listing', index, hlisted', -, hgives, heffect⟩ := h.auto_effect hheard hcycle hr
  obtain rfl : listing' = listing := Except.ok.inj (hlisted'.symm.trans hlisted)
  have hdistinct : Distinct (x.brief.handles site) := by
    unfold Distinct
    rw [keys_of_gives hgives]
    exact hnames
  rw [heffect]
  exact renewed_commit_auto hd hdistinct index

/-- An auto discovery that goes by what the one before it went by leaves the books as they are. -/
theorem Faithful.repeated {x₀ : Turn} {b₀ : Books} (h₀ : x₀.Faithful site b₀ b₀)
    (hheard₀ : x₀.Heard H site) (hcycle₀ : x₀.brief.cycle = .auto) (hr₀ : x₀.result = .ok ())
    (hd₀ : Distinct b₀.registry.groups) (hb : x₀.effect site b₀ b₀ = b)
    (h : x.Faithful site b b) (hheard : x.Heard H site) (hcycle : x.brief.cycle = .auto)
    (hr : x.result = .ok ()) (halike : x₀.Alike x) {listing : List ScaleSet}
    (hlisted : x.brief.listed = .ok listing) (hnames : site.Unambiguous listing) :
    x.effect site b b = b := by
  have hd : Distinct b.registry.groups := hb ▸ x₀.distinct_effect hd₀ hd₀
  have hrenewed := h.renewed hheard hcycle hr hd hlisted hnames
  obtain ⟨listing', index, hlisted', -, hgives, heffect⟩ := h.auto_effect hheard hcycle hr
  obtain ⟨listing₀, index₀, hlisted₀, -, hgives₀, heffect₀⟩ := h₀.auto_effect hheard₀ hcycle₀ hr₀
  obtain rfl : listing' = listing₀ := by
    rw [halike.listed, hlisted₀] at hlisted'
    exact (Except.ok.inj hlisted').symm
  have hpinned : b.pinned = b₀.pinned := by
    rw [← hb, heffect₀]
  have hgroups₀ : b.registry.groups =
      (Plan.auto b₀.registry b₀.pinned (x₀.brief.handles site)).groups := by
    rw [← hb, heffect₀]
    exact Plan.groups_commit (Plan.marked_auto _ _ _) index₀
  have hbounds : ∀ key, (lastNamed? key (x.brief.handles site)).map NodeGroup.bounds =
      (lastNamed? key (x₀.brief.handles site)).map NodeGroup.bounds := by
    intro key
    have hsame := (bounds_of_gives hgives key).symm.trans (bounds_of_gives hgives₀ key)
    have hinjective : Function.Injective (Except.ok : Bounds → Except Error Bounds) :=
      fun _ _ ↦ Except.ok.inj
    refine Option.map_injective hinjective ?_
    rw [Option.map_map, Option.map_map]
    exact hsame
  have hplan : ¬ Regrouped b.registry.groups
      (Plan.auto b.registry b.pinned (x.brief.handles site)).groups := by
    rw [hpinned]
    exact not_regrouped_auto hd₀ hgroups₀
      ((keys_of_gives hgives).trans (keys_of_gives hgives₀).symm) hbounds
  have hgroups : (x.effect site b b).registry.groups = b.registry.groups := by
    refine hrenewed.groups.eq_of_not_regrouped ?_
    rw [heffect]
    dsimp only
    rw [Plan.groups_commit (Plan.marked_auto _ _ _)]
    exact hplan
  have hindex : ∀ key, (x.effect site b b).registry.instances.get? key =
      b.registry.instances.get? key := by
    intro key
    have hget := h.get?_instances hheard hr key
    have hget₀ := h₀.get?_instances hheard₀ hr₀ key
    have htold := h.told_eq hr
    have htold₀ := h₀.told_eq hr₀
    rw [hgroups] at hget htold
    rw [hb] at hget₀ htold₀
    rw [hget, hget₀, List.findRev?_eq_find?_reverse, List.findRev?_eq_find?_reverse]
    congr 1
    refine List.find?_congr fun g hg ↦ ?_
    have hname : g.name ∈ b.registry.groups.map NodeGroup.name :=
      List.mem_map_of_mem (List.mem_reverse.mp hg)
    rw [halike.members (htold₀ ▸ hname) (htold ▸ hname)]
  have hregistry : (x.effect site b b).registry = b.registry := by
    refine hrenewed.stays ?_
    rintro (hregrouped | ⟨key, hkey⟩)
    · rw [hgroups] at hregrouped
      exact hd.not_regrouped hregrouped
    · exact hkey (hindex key)
  calc x.effect site b b = ⟨(x.effect site b b).registry, b.pinned⟩ := by rw [heffect]
    _ = b := by rw [hregistry]

end Turn

/-! ### Steps -/

variable {α : Type} [Balance α] {H : Lore} {hand : Nat → Prop} {f : Fleet α} {e : Event}

/-- A step that enters turns leaves all sizes as they are. -/
theorem cell_of_turns (h : (f.step e).world.journal.turns ≠ f.world.journal.turns) (g : NodeGroup) :
    (f.step e).world.cell g = f.world.cell g := by
  have hchange : ∀ g' (w : World α) change, w.Inquired (w.changeCell g' change) :=
    fun g' w change ↦ w.inquired_cells _
  cases e with
  | begin o =>
    refine ((World.borne_steady g).begin f fun g' ho ↦ absurd ?_ h).cell
    have hasked := World.asking_inquired.startSize f.world f.site f.nextTicket (hchange g')
    show (f.begin o).world.journal.turns = _
    rw [world_begin, ho]
    dsimp only [World.startOperation]
    unfold World.wrapSize
    rw [World.wrap_world, hasked.journal]
  | poll t =>
    refine ((World.borne_steady g).poll f fun g' phase hactivity ↦ absurd ?_ h).cell
    have hasked := World.asking_inquired.pollSize f.world f.site t (hchange g') phase
    show (f.poll t).world.journal.turns = _
    unfold Fleet.poll
    rw [hactivity]
    dsimp only [World.pollActivity]
    unfold World.wrapSize
    rw [world_settle, World.wrap_world, hasked.journal]
  | _ => exact absurd (f.turns_of_other (by rintro o ⟨⟩) (by rintro t ⟨⟩)) h

/-- How a step of a fleet spares what it has no reason to touch, if one of the turns that it enters
is an auto discovery that comes after some deeds. -/
structure Sparing (site : Site) (f f' : Fleet α) (Seen : Nat → Prop) (earlier : List Deed)
    (x : Turn) : Prop where
  /-- A group that stays with its bounds stays the handle it was; one with other bounds gets a
  handle that nobody has had, of unknown size. -/
  renewed : Renewed (fun g ↦ ¬ Seen g.serial ∧ f'.world.cell g = .empty)
    (booksAfter site .empty earlier).registry
    (booksAfter site .empty (earlier ++ [.turn x])).registry
  sizes : ∀ g, f'.world.cell g = f.world.cell g
  /-- Once more on the same inventory it changes nothing. -/
  repeats : ∀ before x₀ between, earlier = before ++ .turn x₀ :: between →
    x₀.brief.cycle = .auto → x₀.result = .ok () → x₀.meanwhile = [] → x₀.Alike x →
      booksAfter site .empty (before ++ [.turn x₀]) = booksAfter site .empty earlier →
        booksAfter site .empty (earlier ++ [.turn x]) = booksAfter site .empty earlier

omit [Balance α] in
/-- What a turn is faithful to that nobody has written over. -/
theorem World.Kept.faithful_turn {w : World α} {site : Site} (h : w.Kept H site) {x : Turn}
    {earlier later : List Deed} (hdeeds : w.journal.deeds = earlier ++ .turn x :: later)
    (hx : x.meanwhile = []) :
    x.Heard H site ∧ Distinct (booksAfter site .empty earlier).registry.groups ∧
      x.Faithful site (booksAfter site .empty earlier) (booksAfter site .empty earlier) ∧
      booksAfter site .empty (earlier ++ [.turn x]) =
        x.effect site (booksAfter site .empty earlier) (booksAfter site .empty earlier) := by
  have hfaithful : Faithful site .empty w.journal.deeds := h.faithful
  rw [hdeeds, faithful_append] at hfaithful
  obtain ⟨-, hturn, -⟩ := hfaithful
  rw [overwritten_eq _ hx] at hturn
  refine ⟨h.heard x ?_, distinct_booksAfter (fun y hy ↦ h.orderly y ?_) distinct_empty, hturn, ?_⟩
  · exact List.mem_filterMap.mpr ⟨.turn x, by simp [hdeeds], rfl⟩
  · refine List.mem_append_left _ ?_
    rw [hdeeds, List.flatMap_append]
    exact List.mem_append_left _ hy
  · rw [booksAfter_append, booksAfter_turn hx]
    rfl

theorem Hand.sparing (h : f.Hand hand) (hfresh : Fresh hand f (f.step e))
    {site : Site} (hsite : f.site = site) (hkept : (f.step e).world.Kept H site) {x : Turn}
    {between later : List Deed}
    (hdeeds : (f.step e).world.journal.deeds =
      f.world.journal.deeds ++ between ++ .turn x :: later)
    (hcycle : x.brief.cycle = .auto) (hr : x.result = .ok ()) (hx : x.meanwhile = [])
    {listing : List ScaleSet} (hlisted : x.brief.listed = .ok listing)
    (hnames : site.Unambiguous listing) {Seen : Nat → Prop} (hseen : ∀ n, Seen n → hand n) :
    Sparing site f (f.step e) Seen (f.world.journal.deeds ++ between) x := by
  obtain rfl := hsite
  obtain ⟨hheard, hd, hfaithful, heffect⟩ := hkept.faithful_turn hdeeds hx
  obtain ⟨entered, hturns, hentered⟩ := hfresh
  have hmem : x ∈ entered := by
    have hall : (f.step e).world.journal.turns = f.world.journal.turns ++
        (between ++ .turn x :: later).filterMap Deed.turn? := by
      unfold Journal.turns
      rw [hdeeds, List.append_assoc, List.filterMap_append]
    rw [List.append_cancel_left (hturns.symm.trans hall)]
    exact List.mem_filterMap.mpr ⟨.turn x, by simp, rfl⟩
  have hcell := cell_of_turns (f := f) (e := e) fun heq ↦ by
    rw [heq] at hturns
    rw [List.self_eq_append_right.mp hturns] at hmem
    cases hmem
  refine ⟨?_, hcell, ?_⟩
  · rw [heffect]
    refine (hfaithful.renewed hheard hcycle hr hd hlisted hnames).imp fun g _ hg ↦ ?_
    have hout := hentered x hmem g hg
    exact ⟨fun hs ↦ hout (hseen _ hs), (hcell g).trans (h.unknown g hout)⟩
  · intro before x₀ rest hsplit hcycle₀ hr₀ hx₀ halike hbooks
    rw [hsplit, List.append_assoc] at hdeeds
    obtain ⟨hheard₀, hd₀, hfaithful₀, heffect₀⟩ := hkept.faithful_turn hdeeds hx₀
    rw [heffect]
    exact hfaithful₀.repeated hheard₀ hcycle₀ hr₀ hd₀ (heffect₀.symm.trans hbooks) hfaithful hheard
      hcycle hr halike hlisted hnames

/-- A call to discover automatically during which nobody has written to the registry ends with a
turn that nobody has written over. -/
theorem meanwhile_of_undisputed {t : Ticket} (hbefore : f.outcome? t = none)
    (hdone : (f.step e).outcome? t = some .done) (hundisputed : e = .poll t → f.Undisputed t)
    {x : Turn} (hturns : (f.step e).world.journal.turns = f.world.journal.turns ++ [x]) :
    x.meanwhile = [] := by
  have hentered : Journal.Adds (fun x ↦ x.meanwhile = []) f.world.journal
      (f.step e).world.journal := by
    rcases outcome?_step hbefore hdone with
      ⟨o, rfl, -, -⟩ | ⟨a, rfl, hactivity, -⟩ | ⟨r, rfl, -⟩
    · show Journal.Adds _ _ (f.begin o).world.journal
      rw [world_begin]
      exact (calm_begin f o).entered
    · show Journal.Adds _ _ (f.poll t).world.journal
      unfold Fleet.poll
      rw [hactivity]
      dsimp only
      rw [world_settle]
      exact ((hundisputed rfl).calm hactivity).entered
    · have hnone := f.turns_of_other (e := .stop t) (by rintro o ⟨⟩) (by rintro t ⟨⟩)
      exact absurd (hnone.symm.trans hturns) (by simp)
  obtain ⟨entered, heq, hall⟩ := hentered
  obtain rfl := List.append_cancel_left (hturns.symm.trans heq)
  exact hall x (List.mem_singleton_self x)

/-! ### Histories -/

section

variable (site : Site) (cloud : Cloud) (files : Files) (quotas : Option (Quotas α))

/-- Nothing is pending before a poll of a call during which nobody has written to the registry. -/
theorem undisputed_of_poll {events earlier during : List Event} {o : Operation} {t : Ticket}
    (he : ∀ x ∈ events, x.Orderly)
    (hevents : events ++ [.poll t] = earlier ++ .begin o :: during)
    (ht : (begun earlier).length = t) (hindirect : ∀ y ∈ during, y.Indirect) :
    ((fresh site cloud files quotas).after events).Undisputed t := by
  obtain rfl := ht
  rcases during.eq_nil_or_concat with rfl | ⟨during, last, rfl⟩
  · obtain ⟨-, hlast⟩ := List.append_inj' hevents rfl
    cases hlast
  · have hsplit : events ++ [.poll (begun earlier).length] =
        (earlier ++ .begin o :: during) ++ [last] := by
      simpa using hevents
    obtain ⟨rfl, -⟩ := List.append_inj' hsplit rfl
    exact undisputed_after site cloud files quotas he fun y hy ↦ hindirect y (by simp [hy])

/-- Every auto discovery that succeeds, and that nobody writes over, spares what it has no reason to
touch if the names that it selects are distinct; and a call to discover automatically succeeds with
such a turn, if nobody writes to the registry directly while it is under way. -/
theorem sparing_after {events : List Event} {e : Event} (he : ∀ x ∈ events ++ [e], x.Orderly)
    (hasks : (fresh site cloud files quotas).AsksSeen (events ++ [e])) :
    (∀ between x later,
        ((fresh site cloud files quotas).after (events ++ [e])).world.journal.deeds =
        ((fresh site cloud files quotas).after events).world.journal.deeds ++ between ++
          .turn x :: later →
      x.brief.cycle = .auto → x.result = .ok () → x.meanwhile = [] →
        ∃ listing, Found ((fresh site cloud files quotas).lore (events ++ [e])) site listing x
            (booksAfter site .empty
              (((fresh site cloud files quotas).after events).world.journal.deeds ++ between))
            (booksAfter site .empty
              (((fresh site cloud files quotas).after events).world.journal.deeds ++ between ++
                [.turn x])) ∧
          (site.Unambiguous listing →
            Sparing site ((fresh site cloud files quotas).after events)
              ((fresh site cloud files quotas).after (events ++ [e]))
              ((fresh site cloud files quotas).Seen events)
              (((fresh site cloud files quotas).after events).world.journal.deeds ++ between) x)) ∧
    (∀ t, (begun (events ++ [e]))[t]? = some .fetchAuto →
      ((fresh site cloud files quotas).after events).outcome? t = none →
      ((fresh site cloud files quotas).after (events ++ [e])).outcome? t = some .done →
        ∃ between x, ((fresh site cloud files quotas).after (events ++ [e])).world.journal.deeds =
            ((fresh site cloud files quotas).after events).world.journal.deeds ++ between ++
              [.turn x] ∧
          x.brief.ticket = t ∧ x.brief.cycle = .auto ∧ x.result = .ok () ∧
          ∀ earlier during, events ++ [e] = earlier ++ .begin .fetchAuto :: during →
            (begun earlier).length = t → (∀ y ∈ during, y.Indirect) →
              x.meanwhile = [] ∧
              booksAfter site .empty
                (((fresh site cloud files quotas).after events).world.journal.deeds ++ between) =
                ((fresh site cloud files quotas).after events).world.books ∧
              booksAfter site .empty
                (((fresh site cloud files quotas).after events).world.journal.deeds ++ between ++
                  [.turn x]) =
                ((fresh site cloud files quotas).after (events ++ [e])).world.books) := by
  have hprefix : events <+: events ++ [e] := List.prefix_append _ _
  have hsound := sound_after site cloud files quotas he hprefix
  have htells := tells_lore (fresh site cloud files quotas) hprefix
  have hsite : ((fresh site cloud files quotas).after events).site = site :=
    ((fresh site cloud files quotas).site_after events).1
  have hkept := kept_after site cloud files quotas he
  have hkept₀ := hsound.kept
  rw [hsite] at hkept₀
  constructor
  · intro between x later hdeeds hcycle hr hx
    obtain ⟨hheard, hd, hfaithful, heffect⟩ := hkept.faithful_turn hdeeds hx
    obtain ⟨listing, hfound⟩ := hfaithful.found hheard hcycle hr hd
    refine ⟨listing, heffect ▸ hfound, fun hnames ↦ ?_⟩
    obtain ⟨hbefore, hlast⟩ := asksSeen_concat.mp hasks
    obtain ⟨hand, hhand, hseen⟩ := hand_after site cloud files quotas
      (fun y hy ↦ he y (List.mem_append_left _ hy)) hbefore
    have hsized : ∀ g, e = .begin (.size g) → hand g.serial := fun g hg ↦ hseen _ (hlast g hg)
    have hfresh := (hhand.step hsound htells (he e (by simp))
      (asked_lore site cloud files quotas (List.prefix_refl _)) hsized).2
    rw [after_concat] at hdeeds hkept ⊢
    exact hhand.sparing hfresh hsite hkept hdeeds hcycle hr hx hfound.listed hnames hseen
  · intro t hcall hbefore hdone
    obtain ⟨x, hturns, hticket, hcycle, hresult⟩ :=
      turn_of_done site cloud files quotas he hcall trivial (by rintro ⟨⟩) hbefore hdone
    rw [after_concat] at hdone hturns hkept ⊢
    have hcontinues := continues_step _ (e := e) fun heq ↦ absurd (heq.symm.trans hturns) (by simp)
    obtain ⟨settled, entered, hdeeds, -⟩ := id hcontinues
    obtain rfl :=
      List.append_cancel_left (hturns.symm.trans (Journal.Continues.turns_eq hdeeds))
    refine ⟨settled.map .write, x, hdeeds, hticket, (List.cons.inj hcycle).1.symm, hresult, ?_⟩
    rintro earlier during hevents hlength hindirect
    have hmeanwhile : x.meanwhile = [] := by
      refine meanwhile_of_undisputed hbefore hdone ?_ hturns
      rintro rfl
      exact undisputed_of_poll site cloud files quotas
        (fun y hy ↦ he y (List.mem_append_left _ hy)) hevents hlength hindirect
    exact ⟨hmeanwhile, hkept₀.books_of_turn hkept hcontinues hturns hmeanwhile hdeeds⟩

end

/-- Puts "db" among what is on, next to "Pool". -/
def stock (most : String) (a : Account) : Account :=
  let on (least most : String) : Table String :=
    .insert (.insert (.insert .empty "on" "yes") "min" least) "max" most
  a.setScaleSets "rg" [⟨"Pool", on "0" "4", 1⟩, ⟨"db", on "1" most, 1⟩]

/-- Both groups are discovered. -/
def discovered : List Event :=
  [.account (stock "3"), .begin .fetchAuto, .elapse 10, .poll 0, .elapse 10, .poll 0]

/-- The size of one group gets known, the bounds of the other change, and a second auto discovery
goes on up to its last poll. -/
def rebounding : List Event :=
  discovered ++ [.begin (.size ⟨0, "Pool", ⟨0, 4⟩, defaultSizePeriod⟩)] ++
    [.elapse 10, .poll 1, .account (stock "5"), .begin .fetchAuto, .elapse 10, .poll 2, .elapse 10]

theorem asksSeen_rebounding : smallFleet.AsksSeen (rebounding ++ [.poll 2]) := by
  have hnone : smallFleet.AsksSeen [] := fun before g hbefore ↦
    absurd (List.prefix_nil.mp hbefore) (by simp)
  have hshows : ∃ g ∈ (smallFleet.after discovered).world.registry.groups, g.serial = 0 := by
    decide +kernel
  have hsized : smallFleet.AsksSeen
      (discovered ++ [.begin (.size ⟨0, "Pool", ⟨0, 4⟩, defaultSizePeriod⟩)]) := by
    refine asksSeen_concat.mpr ⟨hnone.append (by simp), ?_⟩
    rintro g ⟨⟩
    exact Or.inl ⟨_, List.prefix_refl _, Or.inl hshows⟩
  unfold rebounding
  rw [List.append_assoc]
  exact hsized.append (by simp)

theorem sparing_after_rebounding :
    ((smallFleet.after rebounding).world.registry.groups.map fun g ↦ (g.serial, g.name, g.bounds)) =
        [(0, "Pool", ⟨0, 4⟩), (1, "db", ⟨1, 3⟩)] ∧
      ((smallFleet.after (rebounding ++ [.poll 2])).world.registry.groups.map fun g ↦
        (g.serial, g.name, g.bounds)) = [(0, "Pool", ⟨0, 4⟩), (3, "db", ⟨1, 5⟩)] ∧
      ((smallFleet.after (rebounding ++ [.poll 2])).world.cell
        ⟨0, "Pool", ⟨0, 4⟩, defaultSizePeriod⟩).size = some 1 ∧
      ∃ between x, Sparing smallSite (smallFleet.after rebounding)
          (smallFleet.after (rebounding ++ [.poll 2])) (smallFleet.Seen rebounding)
          ((smallFleet.after rebounding).world.journal.deeds ++ between) x ∧
        booksAfter smallSite .empty ((smallFleet.after rebounding).world.journal.deeds ++ between) =
          (smallFleet.after rebounding).world.books := by
  refine ⟨by decide +kernel, by decide +kernel, by decide +kernel, ?_⟩
  have horderly : ∀ e ∈ rebounding ++ [.poll 2], e.Orderly := by
    simp [rebounding, discovered, Event.Orderly]
  have hbefore : (smallFleet.after rebounding).outcome? 2 = none := by
    decide +kernel
  have hover : ((smallFleet.after (rebounding ++ [.poll 2])).outcome? 2).any
      Outcome.isDone = true := by
    decide +kernel
  have hdistinct : ((smallFleet.after (rebounding ++ [.poll 2])).world.journal.turns.all fun x ↦
      x.brief.listed.toOption.all fun listing ↦ smallSite.Unambiguous listing) = true := by
    decide +kernel
  obtain ⟨hsparing, hcalls⟩ := sparing_after smallSite (.account smallAccount) .empty none horderly
    asksSeen_rebounding
  obtain ⟨between, x, hdeeds, -, hcycle, hr, hends⟩ :=
    hcalls 2 rfl hbefore (Outcome.eq_done hover)
  obtain ⟨hx, hbooks, -⟩ := hends (rebounding.take 10) [.elapse 10, .poll 2, .elapse 10, .poll 2]
    rfl rfl (by simp [Event.Indirect])
  obtain ⟨listing, hfound, hspares⟩ := hsparing between x [] hdeeds hcycle hr hx
  refine ⟨between, x, hspares ?_, hbooks⟩
  have hmem : x ∈ (smallFleet.after (rebounding ++ [.poll 2])).world.journal.turns := by
    refine List.mem_filterMap.mpr ⟨.turn x, ?_, rfl⟩
    rw [show smallFleet = fresh smallSite (.account smallAccount) .empty none from rfl, hdeeds]
    simp
  have hlast := List.all_eq_true.mp hdistinct x hmem
  rw [hfound.listed] at hlast
  exact of_decide_eq_true hlast

end NodeFleet.Fleet
