import Mathlib.Data.List.Permutation
import NodeFleet.Proofs.Likeness
import NodeFleet.Proofs.Serializability
/-!
Direct writes that overlap with cycles. A cycle plans on the registry as it was before it asked for
members, and what it installs takes the place of whatever has been written in between: the direct
writes made while such a cycle was asking leave no trace. Cycles that install nothing lose nothing.

The groups in the end are thus those of a serial order of the cycles and of the writes that are not
lost. They are at every moment those of a serial order of all cycles and all writes just when every
cycle that installs a snapshot could as well have run whole at some moment among the writes made
meanwhile; two writes made during one explicit fetch are enough for no order to give them.
-/

set_option autoImplicit false
set_option relaxedAutoImplicit false

namespace NodeFleet.Fleet

open NodeFleet.Discovery NodeFleet.Quota

/-! ### Serial orders -/

namespace Deed

/-- The books after a write, or after a cycle that runs whole. -/
def alone (site : Site) (b : Books) : Deed → Books
  | write x => b.write x
  | turn t => t.effect site b b

/-- The orders of a turn and the writes made meanwhile in which the writes keep their order. -/
inductive Whole : Deed → List Deed → Prop
  | write (x : Write) : Whole (.write x) [.write x]
  | turn (t : Turn) (before after : List Write) (h : t.meanwhile = before ++ after) :
      Whole (.turn t) (before.map .write ++ .turn t :: after.map .write)

/-- What is left of a deed: a cycle that installs a snapshot loses the writes made meanwhile. -/
def kept : Deed → List Deed
  | write x => [.write x]
  | turn t => .turn t :: if t.installed.isSome then [] else t.meanwhile.map .write

end Deed

/-- The books after deeds each of which runs whole, every cycle on the answers that it was given. -/
def aloneAfter (site : Site) (b : Books) (order : List Deed) : Books :=
  order.foldl (Deed.alone site) b

/-- Whether the books after a deed are those of a cycle that runs whole among the writes. -/
def Deed.Explained (site : Site) (b : Books) (d : Deed) : Prop :=
  ∃ order, d.Whole order ∧ (d.after site b).Alike (aloneAfter site b order)

/-- Whether every cycle that installs a snapshot could as well have run whole among the writes made
meanwhile. -/
def Lossless (site : Site) (b : Books) (deeds : List Deed) : Prop :=
  ∀ earlier t later, deeds = earlier ++ .turn t :: later → t.installed.isSome →
    (Deed.turn t).Explained site (booksAfter site b earlier)

/-- A serial order of a history that leads to like books after every deed. -/
inductive Retold (site : Site) : Books → Books → List Deed → List Deed → Prop
  | nil {b b' : Books} (h : b.Alike b') : Retold site b b' [] []
  | cons {b b' : Books} {d : Deed} {rest order later : List Deed} (h : b.Alike b')
      (hd : d.Whole order)
      (hrest : Retold site (d.after site b) (aloneAfter site b' order) rest later) :
      Retold site b b' (d :: rest) (order ++ later)

variable {site : Site} {b b' : Books}

theorem aloneAfter_append (site : Site) (b : Books) (first second : List Deed) :
    aloneAfter site b (first ++ second) = aloneAfter site (aloneAfter site b first) second :=
  List.foldl_append

theorem aloneAfter_writes (site : Site) (b : Books) (xs : List Write) :
    aloneAfter site b (xs.map .write) = xs.foldl Books.write b := by
  rw [aloneAfter, List.foldl_map]
  rfl

namespace Books.Alike

theorem symm (h : b.Alike b') : b'.Alike b :=
  ⟨Eq.symm h.1, h.2.symm⟩

theorem aloneAfter (h : b.Alike b') (order : List Deed) :
    (Fleet.aloneAfter site b order).Alike (Fleet.aloneAfter site b' order) := by
  induction order generalizing b b' with
  | nil => exact h
  | cons d rest ih =>
    have hfirst : (d.alone site b).Alike (d.alone site b') := by
      cases d with
      | write x => exact h.writes [x]
      | turn t => exact Turn.alike_effect h t
    exact ih hfirst

end Books.Alike

/-! ### One turn -/

theorem registry_writes (b : Books) (xs : List Write) :
    (xs.foldl Books.write b).registry = xs.foldl Write.apply b.registry ∧
      (xs.foldl Books.write b).pinned = b.pinned := by
  induction xs generalizing b with
  | nil => exact ⟨rfl, rfl⟩
  | cons x rest ih => exact ih (b.write x)

theorem Write.Orderly.instances {x : Write} (hx : x.Orderly) (s : Snapshot) :
    (x.apply s).instances = s.instances := by
  cases x with
  | register g =>
    show (s.register g).1.instances = s.instances
    unfold Snapshot.register
    split <;> rfl
  | unregister name =>
    show (s.unregister name).1.instances = s.instances
    unfold Snapshot.unregister
    dsimp only
    split_ifs <;> rfl
  | replace groups instances => exact hx.elim

theorem instances_writes {xs : List Write} (hx : ∀ x ∈ xs, x.Orderly) (s : Snapshot) :
    (xs.foldl Write.apply s).instances = s.instances := by
  induction xs generalizing s with
  | nil => rfl
  | cons x rest ih =>
    have hfirst := (hx x List.mem_cons_self).instances s
    exact (ih (fun y hy ↦ hx y (List.mem_cons_of_mem _ hy)) (x.apply s)).trans hfirst

namespace Turn

variable {t : Turn}

/-- A turn that installs a snapshot leaves the groups that its cycle alone would have left. -/
theorem groups_of_installed (hf : t.Faithful site b (t.overwritten b)) {s : Snapshot}
    (hs : t.installed = some s) :
    (t.effect site b (t.overwritten b)).registry = s ∧
      s.groups = (t.effect site b b).registry.groups ∧
        (t.effect site b (t.overwritten b)).pinned = (t.effect site b b).pinned := by
  unfold Faithful at hf
  unfold effect
  rcases ho : t.outcome site b with e | ⟨plan, index⟩
  · rw [ho] at hf
    rw [hf.2] at hs
    simp at hs
  · rw [ho] at hf
    have hinstalled : plan.installed? (t.overwritten b).registry index = some s :=
      hf.2.1.symm.trans hs
    have hcommit : plan.commit (t.overwritten b).registry index = s := by
      rw [Plan.commit, hinstalled]
      rfl
    have hgroups : s.groups = plan.groups := by
      unfold Plan.installed? at hinstalled
      split_ifs at hinstalled
      obtain rfl := Option.some.inj hinstalled
      rfl
    have hpinned : (t.overwritten b).pinned = b.pinned := (registry_writes b t.meanwhile).2
    refine ⟨hcommit, ?_, ?_⟩
    · exact hgroups.trans (Plan.groups_commit (marked_of_outcome ho) index).symm
    · show (t.overwritten b).pinned ++ plan.pins.filter (· ∉ (t.overwritten b).pinned) = _
      rw [hpinned]
      rfl

/-- A turn that installs nothing may as well have ended before the writes made meanwhile. -/
theorem effect_of_idle (hf : t.Faithful site b (t.overwritten b))
    (hx : ∀ x ∈ t.meanwhile, x.Orderly) (hs : t.installed = none) :
    t.effect site b (t.overwritten b) = t.meanwhile.foldl Books.write (t.effect site b b) := by
  unfold Faithful at hf
  unfold effect
  rcases ho : t.outcome site b with e | ⟨plan, index⟩
  · rfl
  · rw [ho] at hf
    obtain ⟨hregistry, hpinned⟩ := registry_writes b t.meanwhile
    obtain ⟨hlater, hstill⟩ := registry_writes (b.install plan index) t.meanwhile
    have hidle : plan.installed? (t.overwritten b).registry index = none := hf.2.1.symm.trans hs
    have hinstances : (t.overwritten b).registry.instances = b.registry.instances := by
      rw [overwritten, hregistry, instances_writes hx]
    have hsame : plan.installed? b.registry index = none := by
      unfold Plan.installed? at hidle ⊢
      rw [hinstances] at hidle
      split_ifs at hidle ⊢
      rfl
    have hcommit : (b.install plan index).registry = b.registry := by
      show (plan.installed? b.registry index).getD b.registry = b.registry
      rw [hsame]
      rfl
    have hended : ((t.overwritten b).install plan index).registry =
        (t.meanwhile.foldl Books.write (b.install plan index)).registry := by
      rw [hlater, hcommit, ← hregistry]
      show (plan.installed? _ index).getD _ = _
      rw [hidle]
      rfl
    have hpins : ((t.overwritten b).install plan index).pinned =
        (t.meanwhile.foldl Books.write (b.install plan index)).pinned := by
      rw [hstill]
      show (t.overwritten b).pinned ++ plan.pins.filter (· ∉ (t.overwritten b).pinned) = _
      rw [overwritten, hpinned]
      rfl
    exact congrArg₂ Books.mk hended hpins

/-- A turn leaves the books of its cycle alone and of the writes that it does not lose. -/
theorem alike_kept (hf : t.Faithful site b (t.overwritten b))
    (hx : ∀ x ∈ t.meanwhile, x.Orderly) :
    (t.effect site b (t.overwritten b)).Alike (aloneAfter site b (Deed.turn t).kept) := by
  cases hs : t.installed with
  | none =>
    have hkept : (Deed.turn t).kept = .turn t :: t.meanwhile.map .write := by
      rw [Deed.kept, hs]
      rfl
    rw [effect_of_idle hf hx hs, hkept, ← aloneAfter_writes site]
    exact .refl _
  | some s =>
    have hkept : (Deed.turn t).kept = [.turn t] := by
      rw [Deed.kept, hs]
      rfl
    obtain ⟨hregistry, hgroups, hpinned⟩ := groups_of_installed hf hs
    rw [hkept]
    refine ⟨?_, hpinned⟩
    rw [hregistry]
    exact congrArg (List.map NodeGroup.shape) hgroups

theorem explained_of_idle (hf : t.Faithful site b (t.overwritten b))
    (hx : ∀ x ∈ t.meanwhile, x.Orderly) (hs : t.installed = none) :
    (Deed.turn t).Explained site b := by
  refine ⟨_, .turn t [] t.meanwhile rfl, ?_⟩
  have hkept := alike_kept hf hx
  rw [Deed.kept, hs] at hkept
  exact hkept

end Turn

/-! ### Histories of deeds -/

variable {deeds order : List Deed}

/-- However cycles and writes overlap, the books are those of a serial order of what is kept. -/
theorem alike_kept (hf : Faithful site b deeds)
    (hx : ∀ x ∈ deeds.flatMap Deed.writes, x.Orderly) (h : b.Alike b') :
    (booksAfter site b deeds).Alike (aloneAfter site b' (deeds.flatMap Deed.kept)) := by
  induction deeds generalizing b b' with
  | nil => exact h
  | cons d rest ih =>
    rw [List.flatMap_cons] at hx
    have hfirst : ∀ x ∈ d.writes, x.Orderly := fun x hd ↦ hx x (List.mem_append_left _ hd)
    have hlater : ∀ x ∈ rest.flatMap Deed.writes, x.Orderly := fun x hd ↦
      hx x (List.mem_append_right _ hd)
    rw [List.flatMap_cons, aloneAfter_append]
    cases d with
    | write x => exact ih (b := b.write x) hf hlater (h.writes [x])
    | turn t =>
      obtain ⟨hturn, hrest⟩ := hf
      have hkept := (Turn.alike_kept hturn hfirst).trans (h.aloneAfter (Deed.turn t).kept)
      exact ih hrest hlater hkept

theorem Deed.Whole.perm {d : Deed} (h : d.Whole order) :
    order.Perm (d.turn?.toList.map .turn ++ d.writes.map .write) := by
  cases h with
  | write x => exact .refl _
  | turn t before after hmeanwhile =>
    show List.Perm _ (Deed.turn t :: t.meanwhile.map Deed.write)
    rw [hmeanwhile, List.map_append]
    exact List.perm_middle

namespace Retold

variable {later : List Deed}

theorem alike (h : Retold site b b' deeds order) : b.Alike b' := by
  cases h with
  | nil h => exact h
  | cons h => exact h

/-- A serial order that leads to like books after every deed does so after the last one. -/
theorem alike_after (h : Retold site b b' deeds order) :
    (booksAfter site b deeds).Alike (aloneAfter site b' order) := by
  induction h with
  | nil h => exact h
  | cons h hd hrest ih =>
    rw [aloneAfter_append]
    exact ih

theorem perm (h : Retold site b b' deeds order) :
    order.Perm ((deeds.filterMap Deed.turn?).map .turn ++
      (deeds.flatMap Deed.writes).map .write) := by
  induction h with
  | nil => exact .refl _
  | @cons b b' d rest order later h hd hrest ih =>
    have hturns : (d :: rest).filterMap Deed.turn? =
        d.turn?.toList ++ rest.filterMap Deed.turn? := by
      cases d <;> rfl
    rw [hturns, List.flatMap_cons, List.map_append, List.map_append]
    refine (hd.perm.append ih).trans ?_
    rw [List.append_assoc, List.append_assoc]
    exact (List.perm_append_comm_assoc _ _ _).append_left _

theorem explained (h : Retold site b b' deeds order) {earlier : List Deed} {d : Deed}
    (hdeeds : deeds = earlier ++ d :: later) : d.Explained site (booksAfter site b earlier) := by
  induction h generalizing earlier with
  | nil => simp at hdeeds
  | cons h hd hrest ih =>
    cases earlier with
    | nil =>
      obtain ⟨rfl, -⟩ := List.cons.inj hdeeds
      exact ⟨_, hd, hrest.alike.trans (h.symm.aloneAfter _)⟩
    | cons first earlier =>
      obtain ⟨rfl, hlater⟩ := List.cons.inj hdeeds
      exact ih hlater

theorem of_explained (h : b.Alike b')
    (hd : ∀ earlier d later, deeds = earlier ++ d :: later →
      d.Explained site (booksAfter site b earlier)) :
    ∃ order, Retold site b b' deeds order := by
  induction deeds generalizing b b' with
  | nil => exact ⟨[], .nil h⟩
  | cons d rest ih =>
    obtain ⟨order, hwhole, halike⟩ := hd [] d rest rfl
    have hrest : ∀ earlier d' later, rest = earlier ++ d' :: later →
        d'.Explained site (booksAfter site (d.after site b) earlier) := by
      intro earlier d' later hrest
      exact hd (d :: earlier) d' later (congrArg (d :: ·) hrest)
    obtain ⟨later, hlater⟩ := ih (halike.trans (h.aloneAfter order)) hrest
    exact ⟨order ++ later, .cons h hwhole hlater⟩

end Retold

theorem faithful_at (hf : Faithful site b deeds) {earlier later : List Deed} {t : Turn}
    (hdeeds : deeds = earlier ++ .turn t :: later) :
    t.Faithful site (booksAfter site b earlier)
      (t.overwritten (booksAfter site b earlier)) := by
  rw [hdeeds] at hf
  exact ((faithful_append site b earlier _).mp hf).2.1

/-- Only cycles that install a snapshot can stand in the way of a serial order. -/
theorem retold_iff (hf : Faithful site b deeds)
    (hx : ∀ x ∈ deeds.flatMap Deed.writes, x.Orderly) :
    (∃ order, Retold site b b deeds order) ↔ Lossless site b deeds := by
  constructor
  · rintro ⟨order, h⟩ earlier t later hdeeds -
    exact h.explained hdeeds
  · intro h
    refine Retold.of_explained (.refl b) fun earlier d later hdeeds ↦ ?_
    cases d with
    | write x => exact ⟨_, .write x, .refl _⟩
    | turn t =>
      rcases hs : t.installed with _ | s
      · refine Turn.explained_of_idle (faithful_at hf hdeeds) (fun x hm ↦ hx x ?_) hs
        exact List.mem_flatMap.mpr ⟨.turn t, by simp [hdeeds], hm⟩
      · exact h earlier t later hdeeds (by rw [hs]; rfl)

/-! ### Unregistered names -/

theorem Write.notMem_keys {key : String} {x : Write} (hx : x.Orderly)
    (hkey : ∀ g, x = .register g → g.key ≠ key) {s : Snapshot} (hs : key ∉ keys s.groups) :
    key ∉ keys (x.apply s).groups := by
  cases x with
  | register g =>
    show key ∉ keys (s.register g).1.groups
    rw [groups_register, keys_placeGroup]
    split_ifs
    · exact hs
    · rw [List.mem_append, List.mem_singleton]
      exact fun h ↦ h.elim hs fun h ↦ hkey g rfl h.symm
  | unregister name =>
    show key ∉ keys (s.unregister name).1.groups
    rw [groups_unregister]
    exact fun h ↦ hs ((List.filter_sublist.map NodeGroup.key).subset h)
  | replace groups instances => exact hx.elim

theorem notMem_keys_writes {key : String} {xs : List Write} (hx : ∀ x ∈ xs, x.Orderly)
    (hkey : ∀ g, .register g ∈ xs → g.key ≠ key) {s : Snapshot} (hs : key ∉ keys s.groups) :
    key ∉ keys (xs.foldl Write.apply s).groups := by
  induction xs generalizing s with
  | nil => exact hs
  | cons x rest ih =>
    have hfirst : ∀ g, x = .register g → g.key ≠ key := by
      rintro g rfl
      exact hkey g List.mem_cons_self
    exact ih (fun y hy ↦ hx y (List.mem_cons_of_mem _ hy))
      (fun g hg ↦ hkey g (List.mem_cons_of_mem _ hg))
      (Write.notMem_keys (hx x List.mem_cons_self) hfirst hs)

theorem notMem_keys_unregister (s : Snapshot) (name : String) :
    Text.lower name ∉ keys ((Write.unregister name).apply s).groups := by
  show Text.lower name ∉ keys (s.unregister name).1.groups
  rw [groups_unregister]
  intro h
  obtain ⟨g, hg, hkey⟩ := List.mem_map.mp h
  have hnot : ¬ g.Named name := by simpa using (List.mem_filter.mp hg).2
  exact hnot hkey

/-- A name unregistered meanwhile comes back just if the turn installs a snapshot that has it. -/
theorem Turn.undone_iff {t : Turn} (hf : t.Faithful site b (t.overwritten b))
    (hx : ∀ x ∈ t.meanwhile, x.Orderly) {before after : List Write} {name : String}
    (hmeanwhile : t.meanwhile = before ++ .unregister name :: after)
    (hafter : ∀ g, .register g ∈ after → g.key ≠ Text.lower name) :
    Text.lower name ∈ keys (t.effect site b (t.overwritten b)).registry.groups ↔
      t.installed.isSome ∧ Text.lower name ∈ keys (t.effect site b b).registry.groups := by
  cases hs : t.installed with
  | none =>
    have hout : Text.lower name ∉ keys (t.effect site b (t.overwritten b)).registry.groups := by
      rw [effect_of_idle hf hx hs, (registry_writes _ _).1, hmeanwhile, List.foldl_append,
        List.foldl_cons]
      refine notMem_keys_writes (fun x hm ↦ hx x ?_) hafter (notMem_keys_unregister _ name)
      rw [hmeanwhile]
      exact List.mem_append_right _ (List.mem_cons_of_mem _ hm)
    simp [hout]
  | some s =>
    obtain ⟨hregistry, hgroups, -⟩ := groups_of_installed hf hs
    rw [hregistry, hgroups]
    simp

/-! ### Fleets -/

variable {α : Type}

/-- Whether some serial order of the cycles and the direct writes gives the registered groups. -/
def Serializable (site : Site) (w : World α) : Prop :=
  ∃ order : List Deed,
    order.Perm (w.journal.turns.map .turn ++ w.journal.writes.map .write) ∧
      Alike w.registry.groups (aloneAfter site .empty order).registry.groups

/-- What becomes of the direct writes of a history that overlap with its cycles. -/
structure Overlap (H : Lore) (site : Site) (events : List Event) (w : World α) : Prop where
  direct : w.journal.writes.map Write.event = events.flatMap Event.direct
  heard : ∀ t ∈ w.journal.turns, t.Heard H site
  /-- Just the writes are lost that were made after a cycle had planned which then installed. -/
  groups : Alike w.registry.groups
    (aloneAfter site .empty
      (w.journal.deeds.flatMap Deed.kept ++ w.journal.pending.map .write)).registry.groups
  /-- When a serial order gives the books at every moment. -/
  retold : (∃ order, Retold site .empty .empty w.journal.deeds order) ↔
    Lossless site .empty w.journal.deeds
  serializable : Lossless site .empty w.journal.deeds → Serializable site w
  /-- When the end of a cycle undoes an unregistration made since it planned. -/
  undone : ∀ earlier t, w.journal.deeds = earlier ++ [.turn t] → w.journal.pending = [] →
    ∀ before name after, t.meanwhile = before ++ .unregister name :: after →
      (∀ g, .register g ∈ after → g.key ≠ Text.lower name) →
        (Text.lower name ∈ keys w.registry.groups ↔
          t.installed.isSome ∧ Text.lower name ∈ keys
            ((Deed.turn t).alone site (booksAfter site .empty earlier)).registry.groups)

/-- A serial order of what is in the journal, followed by the writes made since. -/
theorem Retold.serializable {H : Lore} {w : World α} (hk : w.Kept H site)
    (h : Retold site .empty .empty w.journal.deeds order) : Serializable site w := by
  refine ⟨order ++ w.journal.pending.map .write, ?_, ?_⟩
  · unfold Journal.writes
    rw [List.map_append, ← List.append_assoc]
    exact h.perm.append_right _
  · have halike := h.alike_after.writes w.journal.pending
    rw [← hk.books_eq] at halike
    rw [aloneAfter_append, aloneAfter_writes]
    exact halike.1

theorem World.Kept.overlap {H : Lore} {w : World α} (h : w.Kept H site) {events : List Event}
    (hdirect : w.journal.writes.map Write.event = events.flatMap Event.direct) :
    Overlap H site events w := by
  have horderly : ∀ x ∈ w.journal.deeds.flatMap Deed.writes, x.Orderly := fun x hx ↦
    h.orderly x (List.mem_append_left _ hx)
  have hretold := retold_iff h.faithful horderly
  refine ⟨hdirect, h.heard, ?_, hretold, ?_, ?_⟩
  · have hkept := (alike_kept h.faithful horderly (.refl .empty)).writes w.journal.pending
    rw [← h.books_eq] at hkept
    rw [aloneAfter_append, aloneAfter_writes]
    exact hkept.1
  · intro hlossless
    obtain ⟨order, horder⟩ := hretold.mpr hlossless
    exact horder.serializable h
  · intro earlier t hdeeds hpending before name after hmeanwhile hafter
    have hlast : w.books = t.effect site (booksAfter site .empty earlier)
        (t.overwritten (booksAfter site .empty earlier)) := by
      rw [h.books_eq, hpending, hdeeds, booksAfter_append]
      rfl
    have hmade : ∀ x ∈ t.meanwhile, x.Orderly := by
      intro x hx
      refine horderly x (List.mem_flatMap.mpr ⟨.turn t, ?_, hx⟩)
      rw [hdeeds]
      exact List.mem_append_right _ (List.mem_singleton_self _)
    have hiff := Turn.undone_iff (faithful_at h.faithful hdeeds) hmade hmeanwhile hafter
    rw [← hlast] at hiff
    exact hiff

/-- What becomes of direct writes in any history of cycles and direct writes. -/
theorem overlap_after [Balance α] (site : Site) (cloud : Cloud) (files : Files)
    (quotas : Option (Quotas α)) {events : List Event} (he : ∀ e ∈ events, e.Orderly) :
    Overlap ((fresh site cloud files quotas).lore events) site events
      ((fresh site cloud files quotas).after events).world := by
  have hkept := kept_after site cloud files quotas he
  exact hkept.overlap (writes_after site cloud files quotas he)

/-- A group is unregistered and another registered while an explicit fetch asks for members. -/
def undoing : List Event :=
  [.register ⟨"db", ⟨1, 3⟩⟩, .begin (.fetchExplicit []), .unregister "db",
    .register ⟨"Pool", ⟨1, 2⟩⟩, .elapse 10, .poll 0]

theorem overlap_after_undoing :
    (∀ e ∈ undoing, e.Orderly) ∧
      Overlap (smallFleet.lore undoing) smallSite undoing (smallFleet.after undoing).world ∧
      ((smallFleet.after undoing).world.registry.groups.map NodeGroup.shape) =
        [("db", ⟨1, 3⟩)] := by
  have horderly : ∀ e ∈ undoing, e.Orderly := by
    simp [undoing, Event.Orderly]
  refine ⟨horderly, ?_, ?_⟩
  · exact overlap_after smallSite (.account smallAccount) .empty none horderly
  · decide +kernel

/-- No serial order undoes both writes. -/
theorem not_serializable_undoing : ¬ Serializable smallSite (smallFleet.after undoing).world := by
  rintro ⟨order, hperm, halike⟩
  have hall : ∀ l ∈ ((smallFleet.after undoing).world.journal.turns.map Deed.turn ++
      (smallFleet.after undoing).world.journal.writes.map Deed.write).permutations',
      ¬ ((smallFleet.after undoing).world.registry.groups.map NodeGroup.shape =
        (aloneAfter smallSite .empty l).registry.groups.map NodeGroup.shape) := by
    decide +kernel
  exact hall order (List.mem_permutations'.mpr hperm) halike

end NodeFleet.Fleet
