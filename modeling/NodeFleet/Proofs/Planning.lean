import NodeFleet.Fleet.Journal
import NodeFleet.Proofs.Placement
/-!
What a cycle plans from the registered groups. The planned names are distinct if the registered ones
are, a plan that changes nothing has the registered groups, and so committing a plan leaves the
planned groups in either case. An auto plan keeps pinned groups as they are and otherwise has just
the selected names, with the bounds selected last.
-/

set_option autoImplicit false
set_option relaxedAutoImplicit false

namespace NodeFleet.Discovery

open NodeFleet.Fleet

variable {registered : Snapshot} {pinned : List String} {resolved : List NodeGroup}

theorem keys_filter (p : String → Bool) (groups : List NodeGroup) :
    keys (groups.filter fun g ↦ p g.key) = (keys groups).filter p := by
  unfold keys
  rw [List.filter_map]
  rfl

/-- Whether the plan differs from what is registered, as its mark tells. -/
def Plan.Marked (p : Plan) (registered : Snapshot) : Prop :=
  p.changed = false → p.groups = registered.groups

theorem Plan.marked_explicit (registered : Snapshot) (resolved : List NodeGroup) :
    (Plan.explicit registered resolved).Marked registered :=
  fun h ↦ placeGroups_of_unchanged h

theorem Plan.auto_groups (registered : Snapshot) (pinned : List String)
    (resolved : List NodeGroup) :
    (Plan.auto registered pinned resolved).groups =
      (placeGroups registered.groups (resolved.filter fun g ↦ g.key ∉ pinned)).1.filter
        fun g ↦ g.key ∈ keys resolved ∨ g.key ∈ pinned := rfl

theorem Plan.marked_auto (registered : Snapshot) (pinned : List String)
    (resolved : List NodeGroup) : (Plan.auto registered pinned resolved).Marked registered := by
  intro h
  obtain ⟨hplaced, hlength⟩ := Bool.or_eq_false_iff.mp h
  have hsame : (placeGroups registered.groups (resolved.filter fun g ↦ g.key ∉ pinned)).1 =
      registered.groups := placeGroups_of_unchanged hplaced
  rw [Plan.auto_groups]
  rw [bne_eq_false_iff_eq] at hlength
  exact (List.filter_eq_self.mpr (List.length_filter_eq_length_iff.mp hlength)).trans hsame

theorem marked_plan (cycle : Cycle) (registered : Snapshot) (pinned : List String)
    (resolved : List NodeGroup) : (cycle.plan registered pinned resolved).Marked registered := by
  cases cycle with
  | explicit specs => exact Plan.marked_explicit registered resolved
  | auto => exact Plan.marked_auto registered pinned resolved

theorem distinct_plan (cycle : Cycle) (h : Distinct registered.groups) (pinned : List String)
    (resolved : List NodeGroup) : Distinct (cycle.plan registered pinned resolved).groups := by
  cases cycle with
  | explicit specs => exact h.placeGroups resolved
  | auto =>
    have hplaced := h.placeGroups (resolved.filter fun g ↦ g.key ∉ pinned)
    exact (List.filter_sublist.map NodeGroup.key).nodup hplaced

theorem Plan.groups_commit {p : Plan} (h : p.Marked registered) (index : Table String) :
    (p.commit registered index).groups = p.groups := by
  unfold Plan.commit Plan.installed?
  split_ifs with hsame
  · obtain ⟨hchanged, -⟩ := (Bool.and_eq_true _ _).mp hsame
    rw [Bool.not_eq_true'] at hchanged
    exact (h hchanged).symm
  · rfl

/-! ### Auto discovery -/

/-- Known names that are pinned or selected keep their order; then come the selected names that are
neither pinned nor known, in the order in which they were first selected. -/
theorem keys_auto (h : Distinct registered.groups) (pinned : List String)
    (resolved : List NodeGroup) :
    keys (Plan.auto registered pinned resolved).groups =
      ((keys registered.groups).filter fun k ↦ k ∈ pinned ∨ k ∈ keys resolved) ++
        ((keys resolved).filter
          fun k ↦ k ∉ pinned ∧ k ∉ keys registered.groups).eraseDups := by
  have hnew : (keys (resolved.filter fun g ↦ g.key ∉ pinned)).removeAll (keys registered.groups) =
      (keys resolved).filter fun k ↦ k ∉ pinned ∧ k ∉ keys registered.groups := by
    rw [keys_filter (fun k ↦ k ∉ pinned), List.removeAll, List.filter_filter]
    apply List.filter_congr
    intro k _
    simp [Bool.and_comm]
  have hkept : ∀ k ∈ ((keys resolved).filter
      fun k ↦ k ∉ pinned ∧ k ∉ keys registered.groups).eraseDups,
        decide (k ∈ keys resolved ∨ k ∈ pinned) = true := by
    intro k hk
    have hmem := List.mem_filter.mp (List.mem_eraseDups.mp hk)
    exact decide_eq_true (Or.inl hmem.1)
  rw [Plan.auto_groups, keys_filter (fun k ↦ k ∈ keys resolved ∨ k ∈ pinned),
    keys_placeGroups h, List.eraseDups_append, eraseDups_eq_self h, hnew, List.filter_append,
    List.filter_eq_self.mpr hkept]
  congr 1
  apply List.filter_congr
  intro k _
  simp [or_comm]

/-- Auto discovery leaves pinned groups the very handles they were. -/
theorem mem_auto_of_pinned {g : NodeGroup} (hg : g.key ∈ pinned) (resolved : List NodeGroup) :
    g ∈ (Plan.auto registered pinned resolved).groups ↔ g ∈ registered.groups := by
  have hout : g.key ∉ keys (resolved.filter fun r ↦ r.key ∉ pinned) := by
    rw [keys_filter (fun k ↦ k ∉ pinned)]
    simp [hg]
  rw [Plan.auto_groups, List.mem_filter, mem_placeGroups_of_notMem hout]
  simp [hg]

theorem lastNamed?_filter (p : String → Bool) {key : String} (hk : p key = true)
    (groups : List NodeGroup) :
    lastNamed? key (groups.filter fun g ↦ p g.key) = lastNamed? key groups := by
  unfold lastNamed?
  rw [List.findRev?_eq_find?_reverse, List.findRev?_eq_find?_reverse, ← List.filter_reverse,
    List.find?_filter]
  congr 1
  funext g
  by_cases hg : g.key = key
  · simp [hg, hk]
  · simp [hg]

/-- A group that is not pinned has the bounds with which its name was selected last. -/
theorem bounds_of_mem_auto {g : NodeGroup} (hd : Distinct registered.groups)
    (hm : g ∈ (Plan.auto registered pinned resolved).groups) (hg : g.key ∉ pinned) :
    (lastNamed? g.key resolved).map NodeGroup.bounds = some g.bounds := by
  rw [Plan.auto_groups, List.mem_filter] at hm
  have hselected : g.key ∈ keys resolved := by simpa [hg] using hm.2
  have hplaced : g.key ∈ keys (resolved.filter fun r ↦ r.key ∉ pinned) := by
    rw [keys_filter (fun k ↦ k ∉ pinned), List.mem_filter]
    exact ⟨hselected, by simpa using hg⟩
  rw [← lastNamed?_filter (fun k ↦ k ∉ pinned) (by simpa using hg)]
  exact bounds_of_mem_placeGroups hd hm.1 hplaced

end NodeFleet.Discovery
