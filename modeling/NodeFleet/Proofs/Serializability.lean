import NodeFleet.Proofs.CallTurns
/-!
Histories without direct writes. However the cycles of such a history overlap, the registry and the
pins are those of the same cycles run alone, one after the other in the order in which they got the
gate, each on the answers that it was given; and the registry is at any moment the snapshot that
some cycle installed last, its index built from the members of just its own groups. The calls to
which the cycles belong end by their results.
-/

set_option autoImplicit false
set_option relaxedAutoImplicit false

namespace NodeFleet.Fleet

open NodeFleet.Discovery NodeFleet.Quota

/-- The books that a cycle running alone leaves, the snapshot that it installs, and its result. -/
def Cycle.alone (site : Site) (v : Inventory) (serial : Nat) (b : Books) (cycle : Cycle) :
    Books × Option Snapshot × Except Error Unit :=
  match cycle.outcome site v serial b with
  | .error e => (b, none, .error e)
  | .ok (plan, index) => (b.install plan index, plan.installed? b.registry index, .ok ())

/-- Cycles run alone one after the other: the books that they leave in the end, and the snapshots
and results on the way. Each comes with its inventory and the serial number of its first handle. -/
def serially (site : Site) (b : Books) :
    List (Cycle × Inventory × Nat) → Books × List (Option Snapshot × Except Error Unit)
  | [] => (b, [])
  | (cycle, v, serial) :: rest =>
    match cycle.alone site v serial b with
    | (b, ending) => ((serially site b rest).1, ending :: (serially site b rest).2)

def Turn.script (t : Turn) : Cycle × Inventory × Nat :=
  (t.brief.cycle, t.inventory, t.brief.serial)

/-- How the registry and the pins come about by cycles alone. -/
structure Serial {α : Type} (H : Lore) (site : Site) (w : World α) : Prop where
  /-- The cycles end in the order in which they get the gate, and one may still be at it. -/
  order : ∃ holder : Option Ticket,
    w.journal.holders = (w.journal.turns.map fun t ↦ t.brief.ticket) ++ holder.toList
  run : serially site .empty (w.journal.turns.map Turn.script) =
    (w.books, w.journal.turns.map fun t ↦ (t.installed, t.result))
  heard : ∀ t ∈ w.journal.turns, t.Heard H site
  /-- A cycle that succeeds was told about every group that it leaves registered. -/
  complete : ∀ before t later, w.journal.turns = before ++ t :: later → t.result = .ok () →
    t.told.map Prod.fst =
      (serially site .empty ((before ++ [t]).map Turn.script)).1.registry.groups.map
        NodeGroup.name
  /-- The registry is what was installed last. -/
  snapshot : w.registry = ((w.journal.turns.filterMap Turn.installed).getLast?).getD .empty
  index : ∀ t ∈ w.journal.turns, ∀ s, t.installed = some s → t.result = .ok () ∧
    ∃ members, t.inventory.gather s.groups = .ok members ∧ s.instances = memberIndex members

/-! ### One turn -/

namespace Turn

variable {site : Site} {b : Books} {t : Turn}

theorem Faithful.alone (h : t.Faithful site b b) :
    t.brief.cycle.alone site t.inventory t.brief.serial b =
      (t.effect site b b, t.installed, t.result) := by
  unfold Faithful at h
  unfold Cycle.alone effect
  have houtcome : t.outcome site b =
      t.brief.cycle.outcome site t.inventory t.brief.serial b := rfl
  rw [← houtcome]
  cases ho : t.outcome site b with
  | error e =>
    rw [ho] at h
    dsimp only
    rw [h.1, h.2]
  | ok done =>
    rw [ho] at h
    dsimp only
    rw [h.1, h.2.1]

theorem Faithful.registry_effect (h : t.Faithful site b b) :
    (t.effect site b b).registry = t.installed.getD b.registry := by
  unfold Faithful at h
  unfold effect
  cases ho : t.outcome site b with
  | error e =>
    rw [ho] at h
    rw [h.2]
    rfl
  | ok done =>
    rw [ho] at h
    rw [h.2.1]
    rfl

/-- The groups that a turn leaves registered are those that it was told about, if it succeeded. -/
theorem Faithful.told_eq (h : t.Faithful site b b) (hr : t.result = .ok ()) :
    t.told.map Prod.fst = (t.effect site b b).registry.groups.map NodeGroup.name := by
  unfold Faithful at h
  unfold effect
  rcases ho : t.outcome site b with e | ⟨plan, index⟩
  · rw [ho] at h
    rw [hr] at h
    cases h.1
  · rw [ho] at h
    obtain ⟨candidates, members, -, hplan, -⟩ := Cycle.outcome_eq_ok.mp ho
    have hmarked : plan.Marked b.registry := by
      rw [hplan]
      exact marked_plan _ _ _ _
    have hgroups : (b.install plan index).registry.groups = plan.groups :=
      Plan.groups_commit hmarked index
    dsimp only at h ⊢
    rw [h.2.2, hgroups]

theorem Faithful.index {planned ended : Books} (h : t.Faithful site planned ended)
    {s : Snapshot} (hs : t.installed = some s) :
    t.result = .ok () ∧
      ∃ members, t.inventory.gather s.groups = .ok members ∧
        s.instances = memberIndex members := by
  unfold Faithful at h
  rcases ho : t.outcome site planned with e | ⟨plan, index⟩
  · rw [ho] at h
    rw [h.2] at hs
    simp at hs
  · rw [ho] at h
    obtain ⟨hresult, hinstalled, -⟩ := h
    obtain ⟨candidates, members, -, -, hgather, hindex⟩ := Cycle.outcome_eq_ok.mp ho
    refine ⟨hresult, members, ?_⟩
    rw [hinstalled] at hs
    unfold Plan.installed? at hs
    split_ifs at hs
    obtain rfl := Option.some.inj hs
    exact ⟨hgather, hindex⟩

/-- The listing by which a turn went was told, unless its cycle looked for nothing. -/
theorem Heard.listing {H : Lore} (h : t.Heard H site) {listing : List ScaleSet}
    (hl : t.brief.listed = .ok listing) :
    if t.brief.cycle.needsListing site then H.told t.brief.ticket .scaleSets (.ok listing)
      else listing = [] := by
  have hbrief := h.1.2
  rw [hl] at hbrief
  split_ifs at hbrief ⊢
  · exact hbrief
  · exact Except.ok.inj hbrief

/-- The books after a turn that succeeds are those of its plan. -/
theorem Faithful.effect_of_done (h : t.Faithful site b b) {H : Lore} (hheard : t.Heard H site)
    (hr : t.result = .ok ()) :
    ∃ listing candidates members, t.brief.listed = .ok listing ∧
      t.brief.cycle.candidates site listing = .ok candidates ∧
      t.inventory.gather (t.brief.cycle.plan b.registry b.pinned
        (handles t.brief.serial candidates)).groups = .ok members ∧
      t.effect site b b = b.install (t.brief.cycle.plan b.registry b.pinned
        (handles t.brief.serial candidates)) (memberIndex members) := by
  rcases ho : t.outcome site b with e | ⟨plan, index⟩
  · unfold Faithful at h
    rw [ho, hr] at h
    cases h.1
  · obtain ⟨candidates, members, hcandidates, rfl, hgather, rfl⟩ := Cycle.outcome_eq_ok.mp ho
    rw [listing_inventory hheard.1] at hcandidates
    cases hlisted : t.brief.listed with
    | error e =>
      rw [hlisted] at hcandidates
      cases hcandidates
    | ok listing =>
      rw [hlisted] at hcandidates
      exact ⟨listing, candidates, members, rfl, hcandidates, hgather, effect_of_ok ho⟩

/-- A turn that fails leaves the books as they are. -/
theorem Faithful.effect_of_failed (h : t.Faithful site b b) (hr : t.result ≠ .ok ()) :
    t.effect site b b = b := by
  rcases ho : t.outcome site b with e | ⟨plan, index⟩
  · exact effect_of_error ho
  · unfold Faithful at h
    rw [ho] at h
    exact absurd h.1 hr

end Turn

/-! ### Turns without writes in between -/

/-- Turns one after the other, each of which ran alone. -/
inductive Unwritten (site : Site) : Books → List Deed → Prop
  | nil (b : Books) : Unwritten site b []
  | turn {b : Books} {t : Turn} {rest : List Deed} (hm : t.meanwhile = [])
      (ht : t.Faithful site b b) (hrest : Unwritten site (t.effect site b b) rest) :
      Unwritten site b (.turn t :: rest)

variable {site : Site} {b : Books} {deeds : List Deed}

theorem overwritten_eq (b : Books) {t : Turn} (h : t.meanwhile = []) : t.overwritten b = b := by
  unfold Turn.overwritten
  rw [h]
  rfl

theorem unwritten_of_faithful (hw : deeds.flatMap Deed.writes = []) (hf : Faithful site b deeds) :
    Unwritten site b deeds := by
  induction deeds generalizing b with
  | nil => exact .nil b
  | cons d rest ih =>
    obtain ⟨hfirst, hrest⟩ := List.append_eq_nil_iff.mp (List.flatMap_cons ▸ hw)
    cases d with
    | write x => simp [Deed.writes] at hfirst
    | turn t =>
      obtain ⟨hturn, hlater⟩ := hf
      rw [overwritten_eq b hfirst] at hturn hlater
      exact .turn hfirst hturn (ih hrest hlater)

theorem booksAfter_turn {t : Turn} (hm : t.meanwhile = []) (b : Books) (rest : List Deed) :
    booksAfter site b (.turn t :: rest) = booksAfter site (t.effect site b b) rest := by
  show booksAfter site (t.effect site b (t.overwritten b)) rest = _
  rw [overwritten_eq b hm]

theorem Turn.Faithful.serially_cons {t : Turn} (h : t.Faithful site b b)
    (rest : List (Cycle × Inventory × Nat)) :
    serially site b (t.script :: rest) =
      ((serially site (t.effect site b b) rest).1,
        (t.installed, t.result) :: (serially site (t.effect site b b) rest).2) := by
  show (match t.brief.cycle.alone site t.inventory t.brief.serial b with
    | (b, ending) => ((serially site b rest).1, ending :: (serially site b rest).2)) = _
  rw [h.alone]

namespace Unwritten

theorem deeds_eq (h : Unwritten site b deeds) :
    deeds = (deeds.filterMap Deed.turn?).map .turn := by
  induction h with
  | nil b => rfl
  | turn hm ht hrest ih => exact congrArg (List.cons _) ih

/-- Turns that ran alone are a serial run. -/
theorem serially_eq (h : Unwritten site b deeds) :
    serially site b ((deeds.filterMap Deed.turn?).map Turn.script) =
      (booksAfter site b deeds,
        (deeds.filterMap Deed.turn?).map fun t ↦ (t.installed, t.result)) := by
  induction h with
  | nil b => rfl
  | @turn b t rest hm ht hrest ih =>
    rw [booksAfter_turn hm]
    show serially site b (t.script :: (rest.filterMap Deed.turn?).map Turn.script) = _
    rw [ht.serially_cons, ih]
    rfl

theorem registry_eq (h : Unwritten site b deeds) :
    (booksAfter site b deeds).registry =
      (((deeds.filterMap Deed.turn?).filterMap Turn.installed).getLast?).getD b.registry := by
  induction h with
  | nil b => rfl
  | @turn b t rest hm ht hrest ih =>
    rw [booksAfter_turn hm, ih, ht.registry_effect]
    show _ = (((t :: rest.filterMap Deed.turn?).filterMap Turn.installed).getLast?).getD _
    cases hinstalled : t.installed with
    | none => simp [hinstalled]
    | some s => simp [hinstalled, List.getLast?_cons]

theorem complete (h : Unwritten site b deeds) {before : List Turn} {t : Turn} {later : List Turn}
    (ht : deeds.filterMap Deed.turn? = before ++ t :: later) (hr : t.result = .ok ()) :
    t.told.map Prod.fst =
      (serially site b ((before ++ [t]).map Turn.script)).1.registry.groups.map
        NodeGroup.name := by
  induction h generalizing before with
  | nil b => simp at ht
  | @turn b first rest hm hturn hrest ih =>
    have hturns : first :: rest.filterMap Deed.turn? = before ++ t :: later := ht
    cases before with
    | nil =>
      obtain ⟨rfl, -⟩ := List.cons.inj hturns
      show _ = (serially site b [first.script]).1.registry.groups.map NodeGroup.name
      rw [hturn.serially_cons]
      exact hturn.told_eq hr
    | cons head before =>
      obtain ⟨rfl, hbefore⟩ := List.cons.inj hturns
      show _ = (serially site b (first.script ::
        (before ++ [t]).map Turn.script)).1.registry.groups.map NodeGroup.name
      rw [hturn.serially_cons]
      exact ih hbefore

theorem append {first second : List Turn}
    (h : Unwritten site b ((first ++ second).map .turn)) :
    Unwritten site b (first.map .turn) ∧
      Unwritten site (booksAfter site b (first.map .turn)) (second.map .turn) := by
  induction first generalizing b with
  | nil => exact ⟨.nil b, h⟩
  | cons x rest ih =>
    cases h with
    | turn hm ht hrest =>
      obtain ⟨hfirst, hsecond⟩ := ih hrest
      refine ⟨.turn hm ht hfirst, ?_⟩
      rw [List.map_cons, booksAfter_turn hm]
      exact hsecond

theorem distinct {turns : List Turn} (h : Unwritten site b (turns.map .turn))
    (hd : Distinct b.registry.groups) :
    Distinct (booksAfter site b (turns.map .turn)).registry.groups := by
  induction turns generalizing b with
  | nil => exact hd
  | cons x rest ih =>
    cases h with
    | turn hm ht hrest =>
      rw [List.map_cons, booksAfter_turn hm]
      exact ih hrest (x.distinct_effect hd hd)

theorem booksAfter_of_failed {turns : List Turn} (h : Unwritten site b (turns.map .turn))
    (hfailed : ∀ x ∈ turns, x.result ≠ .ok ()) :
    booksAfter site b (turns.map .turn) = b := by
  induction turns generalizing b with
  | nil => rfl
  | cons x rest ih =>
    cases h with
    | turn hm ht hrest =>
      have hsame := ht.effect_of_failed (hfailed x List.mem_cons_self)
      rw [hsame] at hrest
      rw [List.map_cons, booksAfter_turn hm, hsame,
        ih hrest fun y hy ↦ hfailed y (List.mem_cons_of_mem _ hy)]

end Unwritten

theorem index_of_faithful (hf : Faithful site b deeds) {t : Turn}
    (ht : t ∈ deeds.filterMap Deed.turn?) {s : Snapshot} (hs : t.installed = some s) :
    t.result = .ok () ∧
      ∃ members, t.inventory.gather s.groups = .ok members ∧
        s.instances = memberIndex members := by
  obtain ⟨d, hd, hturn⟩ := List.mem_filterMap.mp ht
  cases d with
  | write x => cases hturn
  | turn t' =>
    obtain rfl := Option.some.inj hturn
    obtain ⟨before, later, rfl⟩ := List.append_of_mem hd
    obtain ⟨hfaithful, -⟩ := ((faithful_append site b before _).mp hf).2
    exact hfaithful.index hs

/-! ### Histories without writes -/

variable {α : Type}

theorem order_of_gate {j : Journal} (h : j.Free ∨ ∃ t, j.HeldBy t) :
    ∃ holder : Option Ticket,
      j.holders = (j.turns.map fun t ↦ t.brief.ticket) ++ holder.toList := by
  rcases h with hfree | ⟨t, hheld⟩
  · exact ⟨none, hfree.trans (List.append_nil _).symm⟩
  · exact ⟨some t, hheld⟩

theorem World.Kept.books_eq {H : Lore} {w : World α} (h : w.Kept H site) :
    w.books = w.journal.pending.foldl Books.write (booksAfter site .empty w.journal.deeds) :=
  h.books

/-- A world to which nothing is written directly has the books that its turns leave. -/
theorem World.Kept.unwritten {H : Lore} {w : World α} (h : w.Kept H site)
    (hw : w.journal.writes = []) :
    w.books = booksAfter site .empty w.journal.deeds ∧ Unwritten site .empty w.journal.deeds := by
  obtain ⟨hdeeds, hpending⟩ := List.append_eq_nil_iff.mp hw
  have hbooks := h.books_eq
  rw [hpending] at hbooks
  exact ⟨hbooks, unwritten_of_faithful hdeeds h.faithful⟩

theorem World.Kept.of_turns {H : Lore} {w : World α} (h : w.Kept H site)
    (hw : w.journal.writes = []) :
    w.books = booksAfter site .empty (w.journal.turns.map .turn) ∧
      Unwritten site .empty (w.journal.turns.map .turn) := by
  obtain ⟨hbooks, hunwritten⟩ := h.unwritten hw
  have hdeeds : w.journal.deeds = w.journal.turns.map .turn := hunwritten.deeds_eq
  rw [hdeeds] at hbooks hunwritten
  exact ⟨hbooks, hunwritten⟩

theorem World.Kept.serial {H : Lore} {w : World α} (h : w.Kept H site)
    (hw : w.journal.writes = []) : Serial H site w := by
  obtain ⟨hbooks, hunwritten⟩ := h.unwritten hw
  refine ⟨order_of_gate ?_, ?_, h.heard, ?_, ?_, ?_⟩
  · exact h.gate.imp_right fun ⟨t, hheld, _⟩ ↦ ⟨t, hheld⟩
  · rw [hbooks]
    exact hunwritten.serially_eq
  · exact fun before t later ht hr ↦ hunwritten.complete ht hr
  · exact (congrArg Books.registry hbooks).trans hunwritten.registry_eq
  · exact fun t ht s hs ↦ index_of_faithful h.faithful ht hs

/-- The turns at any moment, and the books that they leave. -/
theorem unwritten_turns [Balance α] (site : Site) (cloud : Cloud) (files : Files)
    (quotas : Option (Quotas α)) {events : List Event} (hi : ∀ e ∈ events, e.Indirect)
    {before : List Event} (hbefore : before <+: events) :
    ((fresh site cloud files quotas).after before).world.Kept
        ((fresh site cloud files quotas).lore events) site ∧
      ((fresh site cloud files quotas).after before).world.books = booksAfter site .empty
        (((fresh site cloud files quotas).after before).world.journal.turns.map .turn) ∧
      Unwritten site .empty
        (((fresh site cloud files quotas).after before).world.journal.turns.map .turn) := by
  have hkept := (sound_after site cloud files quotas (fun e he ↦ (hi e he).orderly) hbefore).kept
  rw [((fresh site cloud files quotas).site_after before).1] at hkept
  have hw := unwritten_after site cloud files quotas fun e he ↦ hi e (hbefore.subset he)
  exact ⟨hkept, hkept.of_turns hw⟩

/-- Overlapping cycles are serializable, whatever else happens besides direct writes, and every call
that discovers ends by the results of its cycles. -/
theorem serial_after [Balance α] (site : Site) (cloud : Cloud) (files : Files)
    (quotas : Option (Quotas α)) {events : List Event} (he : ∀ e ∈ events, e.Indirect) :
    Serial ((fresh site cloud files quotas).lore events) site
        ((fresh site cloud files quotas).after events).world ∧
      (fresh site cloud files quotas).EndsByTurns events := by
  have horderly : ∀ e ∈ events, e.Orderly := fun e h ↦ (he e h).orderly
  have hkept := kept_after site cloud files quotas horderly
  exact ⟨hkept.serial (unwritten_after site cloud files quotas he),
    ends_after site cloud files quotas horderly⟩

/-- An explicit fetch, and a refresh that begins meanwhile. -/
def overlapping : List Event :=
  [.begin (.fetchExplicit ["1:3:db"]), .begin .refresh, .elapse 10, .poll 1, .poll 0, .elapse 10,
    .poll 0, .poll 1, .elapse 10, .poll 1, .elapse 10, .poll 1]

theorem serial_after_overlapping :
    (∀ e ∈ overlapping, e.Indirect) ∧
      Serial (smallFleet.lore overlapping) smallSite (smallFleet.after overlapping).world ∧
      smallFleet.EndsByTurns overlapping ∧
      ([0, 1].map fun t ↦ ((smallFleet.after overlapping).outcome? t).any Outcome.isDone) =
        [true, true] ∧
      (smallFleet.after overlapping).world.journal.holders = [0, 1] ∧
      ((smallFleet.after overlapping).world.registry.groups.map fun g ↦ (g.name, g.bounds)) =
        [("db", ⟨1, 3⟩), ("Pool", ⟨0, 4⟩)] := by
  have hindirect : ∀ e ∈ overlapping, e.Indirect := by
    simp [overlapping, Event.Indirect]
  obtain ⟨hserial, hends⟩ :=
    serial_after smallSite (.account smallAccount) .empty (none : Option (Quotas Rat)) hindirect
  refine ⟨hindirect, hserial, hends, ?_, ?_, ?_⟩
  · decide +kernel
  · decide +kernel
  · decide +kernel

end NodeFleet.Fleet
