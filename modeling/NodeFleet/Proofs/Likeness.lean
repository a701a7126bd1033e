import NodeFleet.Proofs.Listings
/-!
Books that are alike: the same names with the same bounds in the same order, and the same pins.
Which handles the groups have, how often the snapshot has changed and to whom instances belong makes
no difference to the groups that writes and cycles make of the books.
-/

set_option autoImplicit false
set_option relaxedAutoImplicit false

namespace NodeFleet

/-- What a group is but for its handle. -/
def NodeGroup.shape (g : NodeGroup) : String × Bounds :=
  (g.name, g.bounds)

def Alike (groups others : List NodeGroup) : Prop :=
  groups.map NodeGroup.shape = others.map NodeGroup.shape

namespace Alike

variable {groups others : List NodeGroup}

theorem cases_cons {g h : NodeGroup} {rest rest' : List NodeGroup}
    (hl : Alike (g :: rest) (h :: rest')) :
    g.key = h.key ∧ g.name = h.name ∧ g.bounds = h.bounds ∧ Alike rest rest' := by
  obtain ⟨hhead, htail⟩ := List.cons.inj hl
  obtain ⟨hname, hbounds⟩ := Prod.mk.inj hhead
  exact ⟨congrArg Text.lower hname, hname, hbounds, htail⟩

theorem cons {g h : NodeGroup} (hshape : g.shape = h.shape) (hl : Alike groups others) :
    Alike (g :: groups) (h :: others) := by
  unfold Alike at *
  rw [List.map_cons, List.map_cons, hshape, hl]

theorem placeGroup (hl : Alike groups others) (g : NodeGroup) :
    Alike (placeGroup g groups).1 (placeGroup g others).1 ∧
      (NodeFleet.placeGroup g groups).2 = (NodeFleet.placeGroup g others).2 := by
  induction groups generalizing others with
  | nil =>
    obtain rfl : others = [] := List.map_eq_nil_iff.mp hl.symm
    exact ⟨rfl, rfl⟩
  | cons first rest ih =>
    cases others with
    | nil => cases hl
    | cons first' rest' =>
      obtain ⟨hkey, hname, hbounds, hrest⟩ := hl.cases_cons
      have hshape : first.shape = first'.shape := congrArg₂ Prod.mk hname hbounds
      obtain ⟨hplaced, hchanged⟩ := ih hrest
      rw [placeGroup_cons, placeGroup_cons, hkey, hbounds]
      split_ifs
      · exact ⟨hl, rfl⟩
      · exact ⟨hrest.cons rfl, rfl⟩
      · exact ⟨hplaced.cons hshape, hchanged⟩

theorem placeGroups (hl : Alike groups others) (placed : List NodeGroup) :
    Alike (placeGroups groups placed).1 (placeGroups others placed).1 := by
  induction placed generalizing groups others with
  | nil => exact hl
  | cons g rest ih =>
    rw [placeGroups_cons, placeGroups_cons]
    exact ih (hl.placeGroup g).1

theorem filter (hl : Alike groups others) (p : String → Bool) :
    Alike (groups.filter fun g ↦ p g.key) (others.filter fun g ↦ p g.key) := by
  induction groups generalizing others with
  | nil =>
    obtain rfl : others = [] := List.map_eq_nil_iff.mp hl.symm
    rfl
  | cons first rest ih =>
    cases others with
    | nil => cases hl
    | cons first' rest' =>
      obtain ⟨hkey, hname, hbounds, hrest⟩ := hl.cases_cons
      have hshape : first.shape = first'.shape := congrArg₂ Prod.mk hname hbounds
      rw [List.filter_cons, List.filter_cons, hkey]
      split_ifs
      · exact (ih hrest).cons hshape
      · exact ih hrest

end Alike

namespace Fleet

open NodeFleet.Discovery

namespace Books

def Alike (b b' : Books) : Prop :=
  NodeFleet.Alike b.registry.groups b'.registry.groups ∧ b.pinned = b'.pinned

theorem Alike.refl (b : Books) : b.Alike b :=
  ⟨rfl, rfl⟩

theorem Alike.trans {b b' b'' : Books} (h : b.Alike b') (h' : b'.Alike b'') : b.Alike b'' :=
  ⟨Eq.trans h.1 h'.1, h.2.trans h'.2⟩

end Books

theorem Write.alike {s s' : Snapshot} (h : Alike s.groups s'.groups) (x : Write) :
    Alike (x.apply s).groups (x.apply s').groups := by
  cases x with
  | register g =>
    show Alike (s.register g).1.groups (s'.register g).1.groups
    rw [groups_register, groups_register]
    exact (h.placeGroup g).1
  | unregister name =>
    show Alike (s.unregister name).1.groups (s'.unregister name).1.groups
    rw [groups_unregister, groups_unregister]
    exact h.filter fun k ↦ ¬ k = Text.lower name
  | replace groups instances => rfl

variable {b b' : Books}

namespace Books.Alike

theorem writes (h : b.Alike b') (xs : List Write) :
    (xs.foldl Books.write b).Alike (xs.foldl Books.write b') := by
  induction xs generalizing b b' with
  | nil => exact h
  | cons x rest ih =>
    have hfirst : (b.write x).Alike (b'.write x) := ⟨Write.alike h.1 x, h.2⟩
    exact ih hfirst

theorem plan (h : b.Alike b') (cycle : Cycle) (resolved : List NodeGroup) :
    NodeFleet.Alike (cycle.plan b.registry b.pinned resolved).groups
        (cycle.plan b'.registry b'.pinned resolved).groups ∧
      (cycle.plan b.registry b.pinned resolved).pins =
        (cycle.plan b'.registry b'.pinned resolved).pins := by
  cases cycle with
  | explicit specs => exact ⟨h.1.placeGroups resolved, rfl⟩
  | auto =>
    refine ⟨?_, rfl⟩
    show NodeFleet.Alike (Plan.auto b.registry b.pinned resolved).groups
      (Plan.auto b'.registry b'.pinned resolved).groups
    rw [Plan.auto_groups, Plan.auto_groups, h.2]
    exact (h.1.placeGroups _).filter fun k ↦ k ∈ keys resolved ∨ k ∈ b'.pinned

end Books.Alike

theorem Inventory.gather_alike (v : Inventory) {groups others : List NodeGroup}
    (h : Alike groups others) : v.gather groups = v.gather others := by
  induction groups generalizing others with
  | nil =>
    obtain rfl : others = [] := List.map_eq_nil_iff.mp h.symm
    rfl
  | cons first rest ih =>
    cases others with
    | nil => cases h
    | cons first' rest' =>
      obtain ⟨-, hname, -, hrest⟩ := h.cases_cons
      rw [gather_cons, gather_cons, hname, ih hrest]

namespace Turn

variable {site : Site} {t : Turn}

theorem outcome_alike (h : b.Alike b') {plan : Plan} {index : Table String}
    (ho : t.outcome site b = .ok (plan, index)) :
    ∃ plan', t.outcome site b' = .ok (plan', index) ∧ plan'.Marked b'.registry ∧
      Alike plan.groups plan'.groups ∧ plan.pins = plan'.pins := by
  obtain ⟨candidates, members, hcandidates, rfl, hgather, hindex⟩ := Cycle.outcome_eq_ok.mp ho
  obtain ⟨hgroups, hpins⟩ := h.plan t.brief.cycle (handles t.brief.serial candidates)
  rw [t.inventory.gather_alike hgroups] at hgather
  exact ⟨_, Cycle.outcome_eq_ok.mpr ⟨candidates, members, hcandidates, rfl, hgather, hindex⟩,
    marked_plan _ _ _ _, hgroups, hpins⟩

/-- The books after a cycle that runs alone have the groups that it plans. -/
theorem alike_install {plan plan' : Plan} (hm : plan.Marked b.registry)
    (hm' : plan'.Marked b'.registry) (h : b.Alike b') (hgroups : Alike plan.groups plan'.groups)
    (hpins : plan.pins = plan'.pins) (index : Table String) :
    (b.install plan index).Alike (b'.install plan' index) := by
  refine ⟨?_, ?_⟩
  · show Alike (plan.commit b.registry index).groups (plan'.commit b'.registry index).groups
    rw [Plan.groups_commit hm, Plan.groups_commit hm']
    exact hgroups
  · show b.pinned ++ plan.pins.filter (· ∉ b.pinned) =
      b'.pinned ++ plan'.pins.filter (· ∉ b'.pinned)
    rw [h.2, hpins]

theorem marked_of_outcome {plan : Plan} {index : Table String}
    (ho : t.outcome site b = .ok (plan, index)) : plan.Marked b.registry := by
  obtain ⟨candidates, members, -, rfl, -⟩ := Cycle.outcome_eq_ok.mp ho
  exact marked_plan _ _ _ _

/-- Cycles that run alone keep books alike. -/
theorem alike_effect (h : b.Alike b') (t : Turn) :
    (t.effect site b b).Alike (t.effect site b' b') := by
  rcases ho : t.outcome site b with e | ⟨plan, index⟩
  · rcases ho' : t.outcome site b' with e' | ⟨plan', index'⟩
    · unfold Turn.effect
      rw [ho, ho']
      exact h
    · have hback : b'.Alike b := ⟨Eq.symm h.1, h.2.symm⟩
      obtain ⟨plan, ho'', -⟩ := outcome_alike hback ho'
      rw [ho] at ho''
      simp at ho''
  · obtain ⟨plan', ho', hmarked', hgroups, hpins⟩ := outcome_alike h ho
    unfold Turn.effect
    rw [ho, ho']
    exact alike_install (marked_of_outcome ho) hmarked' h hgroups hpins index

end Turn

end Fleet

end NodeFleet
