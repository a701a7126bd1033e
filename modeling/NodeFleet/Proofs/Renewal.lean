import NodeFleet.Proofs.MemberIndex
import NodeFleet.Proofs.Provenance
/-!
How the groups of an auto plan follow those before it. If every name was resolved once, the plan is
marked as changed just when a group is new, is gone or has other bounds; and whatever stays with its
bounds stays the very handle it was, in its place. So committing a plan makes the next version for a
real difference and otherwise leaves the snapshot as it is.
-/

set_option autoImplicit false
set_option relaxedAutoImplicit false

namespace NodeFleet

/-! ### Placing groups -/

theorem Distinct.eq_of_key {groups : List NodeGroup} (h : Distinct groups) {g g' : NodeGroup}
    (hg : g ∈ groups) (hg' : g' ∈ groups) (hk : g.key = g'.key) : g = g' :=
  List.inj_on_of_nodup_map h hg hg' hk

/-- A group changes the list unless the group of its name there has its bounds. -/
theorem changed_placeGroup_iff {g : NodeGroup} {groups : List NodeGroup} (hd : Distinct groups) :
    (placeGroup g groups).2 = true ↔ ∀ h ∈ groups, h.key = g.key → h.bounds ≠ g.bounds := by
  induction groups with
  | nil => simp [placeGroup]
  | cons first rest ih =>
    obtain ⟨hfirst, hrest⟩ := List.nodup_cons.mp hd
    rw [placeGroup_cons, List.forall_mem_cons]
    by_cases hk : first.key = g.key
    · have hout : ∀ h ∈ rest, h.key = g.key → h.bounds ≠ g.bounds := fun h hh hkey ↦
        absurd (hk.trans hkey.symm ▸ List.mem_map_of_mem hh) hfirst
      by_cases hb : first.bounds = g.bounds
      · simp [hk, hb]
      · simp only [if_pos hk, if_neg hb, true_iff]
        exact ⟨fun _ ↦ hb, hout⟩
    · rw [if_neg hk]
      exact (ih hrest).trans (and_iff_right fun h ↦ absurd h hk).symm

theorem mem_placeGroup_of_bounds {g h : NodeGroup} {groups : List NodeGroup} (hd : Distinct groups)
    (hm : h ∈ groups) (hb : g.key = h.key → g.bounds = h.bounds) : h ∈ (placeGroup g groups).1 := by
  by_cases hk : h.key = g.key
  · have hsame : (placeGroup g groups).2 = false := by
      rw [← Bool.not_eq_true, changed_placeGroup_iff hd]
      exact fun hall ↦ hall h hm hk (hb hk.symm).symm
    rwa [placeGroup_of_unchanged hsame]
  · exact (mem_placeGroup_of_ne hk groups).mpr hm

/-- A group stays the handle it was if its name is placed with no other bounds. -/
theorem mem_placeGroups_of_bounds {h : NodeGroup} {groups placed : List NodeGroup}
    (hd : Distinct groups) (hm : h ∈ groups)
    (hb : ∀ g ∈ placed, g.key = h.key → g.bounds = h.bounds) :
    h ∈ (placeGroups groups placed).1 := by
  induction placed generalizing groups with
  | nil => exact hm
  | cons g rest ih =>
    rw [placeGroups_cons]
    exact ih (hd.placeGroup g) (mem_placeGroup_of_bounds hd hm (hb g List.mem_cons_self))
      fun r hr ↦ hb r (List.mem_cons_of_mem _ hr)

/-- Groups of distinct names do not get in each other's way: one of them changes the list that is
there before any is placed. -/
theorem changed_placeGroups_iff {groups placed : List NodeGroup} (hd : Distinct groups)
    (hp : Distinct placed) :
    (placeGroups groups placed).2 = true ↔
      ∃ g ∈ placed, ∀ h ∈ groups, h.key = g.key → h.bounds ≠ g.bounds := by
  induction placed generalizing groups with
  | nil => simp [placeGroups]
  | cons g rest ih =>
    obtain ⟨hg, hrest⟩ := List.nodup_cons.mp hp
    have hsame : ∀ r ∈ rest, ∀ h : NodeGroup, h.key = r.key →
        (h ∈ (placeGroup g groups).1 ↔ h ∈ groups) := by
      intro r hr h hk
      refine mem_placeGroup_of_ne (fun heq ↦ hg ?_) groups
      rw [← heq, hk]
      exact List.mem_map_of_mem hr
    rw [placeGroups_cons, Bool.or_eq_true, changed_placeGroup_iff hd, ih (hd.placeGroup g) hrest,
      List.exists_mem_cons_iff]
    refine or_congr Iff.rfl (exists_congr fun r ↦ and_congr_right fun hr ↦ ?_)
    exact ⟨fun hall h hh hk ↦ hall h ((hsame r hr h hk).mpr hh) hk,
      fun hall h hh hk ↦ hall h ((hsame r hr h hk).mp hh) hk⟩

theorem lastNamed?_eq_some {g : NodeGroup} {groups : List NodeGroup} (hd : Distinct groups)
    (hg : g ∈ groups) : lastNamed? g.key groups = some g := by
  obtain ⟨before, after, rfl⟩ := List.append_of_mem hg
  refine findRev?_eq_some_iff.mpr ⟨before, after, rfl, decide_eq_true rfl, fun b hb ↦ ?_⟩
  refine decide_eq_false fun hk ↦ ?_
  have hafter : g.key ∉ keys after := by
    have hkeys : keys (before ++ g :: after) = keys before ++ g.key :: keys after := by simp [keys]
    unfold Distinct at hd
    rw [hkeys] at hd
    exact (List.nodup_cons.mp (List.nodup_append.mp hd).2.1).1
  exact hafter (hk ▸ List.mem_map_of_mem hb)

/-- Whether a group is new, is gone or has other bounds. -/
inductive Regrouped (groups groups' : List NodeGroup) : Prop
  | added (g : NodeGroup) (hg : g ∈ groups') (hk : g.key ∉ keys groups)
  | evicted (g : NodeGroup) (hg : g ∈ groups) (hk : g.key ∉ keys groups')
  | rebounded (g g' : NodeGroup) (hg : g ∈ groups) (hg' : g' ∈ groups') (hk : g'.key = g.key)
      (hb : g'.bounds ≠ g.bounds)

theorem Distinct.not_regrouped {groups : List NodeGroup} (h : Distinct groups) :
    ¬ Regrouped groups groups := by
  rintro (⟨g, hg, hk⟩ | ⟨g, hg, hk⟩ | ⟨g, g', hg, hg', hk, hb⟩)
  · exact hk (List.mem_map_of_mem hg)
  · exact hk (List.mem_map_of_mem hg)
  · exact hb (congrArg NodeGroup.bounds (h.eq_of_key hg' hg hk))

/-- How a group goes on under its name: with the same bounds as the very handle it was, and with
others as a new one. -/
structure Renews (New : NodeGroup → Prop) (g g' : NodeGroup) : Prop where
  name : g'.key = g.key
  same : g'.bounds = g.bounds → g' = g
  other : g'.bounds ≠ g.bounds → New g'

/-- How groups follow others: those that stay go on in their order, and new ones come after them. -/
structure Renewal (New : NodeGroup → Prop) (groups groups' : List NodeGroup) : Prop where
  split : ∃ kept added, groups' = kept ++ added ∧
    List.Forall₂ (Renews New) (groups.filter fun g ↦ g.key ∈ keys groups') kept ∧
    ∀ g ∈ added, g.key ∉ keys groups ∧ New g

theorem Renewal.imp {New New' : NodeGroup → Prop} {groups groups' : List NodeGroup}
    (h : Renewal New groups groups')
    (himp : ∀ g ∈ groups', New g → New' g) : Renewal New' groups groups' := by
  obtain ⟨kept, added, rfl, hkept, hadded⟩ := h.split
  refine ⟨kept, added, rfl, ?_, fun g hg ↦ ⟨(hadded g hg).1, ?_⟩⟩
  · obtain ⟨hlength, hpairs⟩ := List.forall₂_iff_get.mp hkept
    refine List.forall₂_iff_get.mpr ⟨hlength, fun i hi hi' ↦ ?_⟩
    have hpair := hpairs i hi hi'
    have hmem : kept.get ⟨i, hi'⟩ ∈ kept ++ added := List.mem_append_left _ (List.get_mem kept _)
    exact ⟨hpair.name, hpair.same, fun hb ↦ himp _ hmem (hpair.other hb)⟩
  · exact himp g (List.mem_append_right _ hg) (hadded g hg).2

/-- Groups that none is new or gone among and that all have their bounds are the very same. -/
theorem Renewal.eq_of_not_regrouped {New : NodeGroup → Prop} {groups groups' : List NodeGroup}
    (h : Renewal New groups groups') (hsame : ¬ Regrouped groups groups') : groups' = groups := by
  obtain ⟨kept, added, heq, hkept, hadded⟩ := h.split
  have hnone : added = [] := by
    refine List.eq_nil_iff_forall_not_mem.mpr fun g hg ↦ hsame (.added g ?_ (hadded g hg).1)
    rw [heq]
    exact List.mem_append_right _ hg
  have hall : (groups.filter fun g ↦ g.key ∈ keys groups') = groups := by
    refine List.filter_eq_self.mpr fun g hg ↦ decide_eq_true ?_
    by_contra hk
    exact hsame (.evicted g hg hk)
  rw [hnone, List.append_nil] at heq
  rw [hall, ← heq] at hkept
  obtain ⟨hlength, hpairs⟩ := List.forall₂_iff_get.mp hkept
  refine List.ext_getElem hlength.symm fun i hi' hi ↦ ?_
  have hpair := hpairs i hi hi'
  refine hpair.same ?_
  by_contra hb
  exact hsame (.rebounded _ _ (List.get_mem groups _) (List.get_mem groups' _) hpair.name hb)

theorem forall₂_of_keys {l l' : List NodeGroup} (h : keys l' = keys l) :
    List.Forall₂ (fun g g' ↦ g'.key = g.key ∧ g ∈ l ∧ g' ∈ l') l l' := by
  have hlength : l.length = l'.length := by
    simpa [keys] using (congrArg List.length h).symm
  refine List.forall₂_iff_get.mpr
    ⟨hlength, fun i hi hi' ↦ ⟨?_, List.get_mem l _, List.get_mem l' _⟩⟩
  have hkey : (keys l')[i]? = (keys l)[i]? := congrArg (fun ks ↦ ks[i]?) h
  simpa [keys, hi, hi'] using hkey

namespace Discovery

variable {registered : Snapshot} {pinned : List String} {resolved : List NodeGroup}

/-! ### Auto plans -/

theorem mem_keys_auto {k : String} (hd : Distinct registered.groups) :
    k ∈ keys (Plan.auto registered pinned resolved).groups ↔
      k ∈ keys registered.groups ∧ (k ∈ pinned ∨ k ∈ keys resolved) ∨
        k ∈ keys resolved ∧ k ∉ pinned := by
  rw [keys_auto hd, List.mem_append, List.mem_filter, List.mem_eraseDups, List.mem_filter,
    decide_eq_true_iff, decide_eq_true_iff]
  tauto

theorem Plan.auto_changed (registered : Snapshot) (pinned : List String)
    (resolved : List NodeGroup) :
    (Plan.auto registered pinned resolved).changed =
      ((placeGroups registered.groups (resolved.filter fun g ↦ g.key ∉ pinned)).2 ||
        (Plan.auto registered pinned resolved).groups.length !=
          (placeGroups registered.groups (resolved.filter fun g ↦ g.key ∉ pinned)).1.length) := rfl

/-- A group that an auto plan has with its bounds stays the handle it was. -/
theorem mem_auto_of_bounds (hd : Distinct registered.groups) (hr : Distinct resolved)
    {g g' : NodeGroup} (hg : g ∈ registered.groups)
    (hg' : g' ∈ (Plan.auto registered pinned resolved).groups) (hk : g'.key = g.key)
    (hb : g'.bounds = g.bounds) : g' = g := by
  have hplan : Distinct (Plan.auto registered pinned resolved).groups :=
    distinct_plan .auto hd pinned resolved
  refine hplan.eq_of_key hg' ?_ hk
  by_cases hpinned : g.key ∈ pinned
  · exact (mem_auto_of_pinned hpinned resolved).mpr hg
  · have hlast := bounds_of_mem_auto hd hg' (hk ▸ hpinned)
    obtain ⟨last, hfound, hbounds⟩ := Option.map_eq_some_iff.mp hlast
    obtain ⟨hselected, hlastKey⟩ := mem_of_findRev? hfound
    have hlastKey' : last.key = g.key := (of_decide_eq_true hlastKey).trans hk
    rw [Plan.auto_groups, List.mem_filter]
    refine ⟨mem_placeGroups_of_bounds hd hg fun r hr' hkey ↦ ?_, ?_⟩
    · have hsame : r = last :=
        hr.eq_of_key (List.mem_of_mem_filter hr') hselected (hkey.trans hlastKey'.symm)
      rw [hsame, hbounds, hb]
    · exact decide_eq_true (Or.inl (hlastKey' ▸ List.mem_map_of_mem hselected))

/-- An auto plan is marked as changed just when it differs from what is registered. -/
theorem changed_auto_iff (hd : Distinct registered.groups) (hr : Distinct resolved) :
    (Plan.auto registered pinned resolved).changed = true ↔
      Regrouped registered.groups (Plan.auto registered pinned resolved).groups := by
  constructor
  · intro h
    rw [Plan.auto_changed, Bool.or_eq_true, bne_iff_ne] at h
    rcases h with hplaced | hlength
    · have hfiltered : Distinct (resolved.filter fun g ↦ g.key ∉ pinned) :=
        (List.filter_sublist.map NodeGroup.key).nodup hr
      obtain ⟨r, hmem, hother⟩ := (changed_placeGroups_iff hd hfiltered).mp hplaced
      obtain ⟨hselected, hpinned⟩ := List.mem_filter.mp hmem
      have hkey : r.key ∈ keys (Plan.auto registered pinned resolved).groups :=
        (mem_keys_auto hd).mpr (Or.inr ⟨List.mem_map_of_mem hselected, by simpa using hpinned⟩)
      obtain ⟨g', hg', hk'⟩ := List.mem_map.mp hkey
      by_cases hknown : r.key ∈ keys registered.groups
      · obtain ⟨g, hg, hk⟩ := List.mem_map.mp hknown
        refine .rebounded g g' hg hg' (hk'.trans hk.symm) fun hb ↦ hother g hg hk ?_
        have hlast := bounds_of_mem_auto hd hg' (by simpa [hk'] using hpinned)
        rw [hk', lastNamed?_eq_some hr hselected] at hlast
        exact hb.symm.trans (Option.some.inj hlast).symm
      · exact .added g' hg' (hk' ▸ hknown)
    · rw [Plan.auto_groups, ne_eq, List.length_filter_eq_length_iff] at hlength
      push Not at hlength
      obtain ⟨g, hg, hgone⟩ := hlength
      have hgone' : ¬ (g.key ∈ keys resolved ∨ g.key ∈ pinned) := by simpa using hgone
      have hout : g.key ∉ keys (resolved.filter fun r ↦ r.key ∉ pinned) := fun hk ↦ by
        rw [keys_filter (fun k ↦ k ∉ pinned)] at hk
        exact hgone' (Or.inl (List.mem_of_mem_filter hk))
      refine .evicted g ((mem_placeGroups_of_notMem hout _).mp hg) fun hk ↦ ?_
      rcases (mem_keys_auto hd).mp hk with ⟨-, hk⟩ | ⟨hk, -⟩
      · exact hgone' hk.symm
      · exact hgone' (Or.inl hk)
  · intro h
    by_contra hsame
    rw [Plan.marked_auto registered pinned resolved (by simpa using hsame)] at h
    exact hd.not_regrouped h

/-- The groups of an auto plan follow the registered ones; what is new was resolved. -/
theorem renewal_auto (hd : Distinct registered.groups) (hr : Distinct resolved) :
    Renewal (· ∈ resolved) registered.groups (Plan.auto registered pinned resolved).groups := by
  have hnew : ∀ g ∈ (Plan.auto registered pinned resolved).groups, g ∉ registered.groups →
      g ∈ resolved := by
    intro g hg hout
    rcases placeGroups_subset (List.mem_of_mem_filter hg) with hg | hg
    · exact List.mem_of_mem_filter hg
    · exact absurd hg hout
  have hkept : (keys registered.groups).filter (fun k ↦ k ∈ pinned ∨ k ∈ keys resolved) =
      keys (registered.groups.filter fun g ↦
        g.key ∈ keys (Plan.auto registered pinned resolved).groups) := by
    rw [keys_filter (fun k ↦ k ∈ keys (Plan.auto registered pinned resolved).groups)]
    refine List.filter_congr fun k hk ↦ decide_eq_decide.mpr ?_
    rw [mem_keys_auto hd]
    tauto
  obtain ⟨kept, added, heq, hkeys, haddedKeys⟩ :=
    List.map_eq_append_iff.mp (keys_auto hd pinned resolved)
  refine ⟨kept, added, heq, ?_, ?_⟩
  · refine (forall₂_of_keys (hkeys.trans hkept)).imp fun g g' ⟨hk, hg, hg'⟩ ↦ ?_
    have hplan : g' ∈ (Plan.auto registered pinned resolved).groups :=
      heq ▸ List.mem_append_left _ hg'
    have hold := List.mem_of_mem_filter hg
    refine ⟨hk, mem_auto_of_bounds hd hr hold hplan hk, fun hb ↦ hnew g' hplan fun hg' ↦ hb ?_⟩
    exact congrArg NodeGroup.bounds (hd.eq_of_key hg' hold hk)
  · intro g hg
    have hk : g.key ∈ added.map NodeGroup.key := List.mem_map_of_mem hg
    rw [haddedKeys] at hk
    have hk' := (List.mem_filter.mp (List.mem_eraseDups.mp hk)).2
    have hout : g.key ∉ keys registered.groups := (of_decide_eq_true hk').2
    exact ⟨hout, hnew g (heq ▸ List.mem_append_right _ hg) fun hg ↦ hout (List.mem_map_of_mem hg)⟩

/-- An auto plan for groups that an auto plan has left differs from them no more, if the same names
are resolved with the same bounds. -/
theorem not_regrouped_auto {registered' : Snapshot} {resolved' : List NodeGroup}
    (hd : Distinct registered.groups)
    (hgroups : registered'.groups = (Plan.auto registered pinned resolved).groups)
    (hkeys : keys resolved' = keys resolved)
    (hbounds : ∀ key, (lastNamed? key resolved').map NodeGroup.bounds =
      (lastNamed? key resolved).map NodeGroup.bounds) :
    ¬ Regrouped registered'.groups (Plan.auto registered' pinned resolved').groups := by
  have hd' : Distinct registered'.groups := hgroups ▸ distinct_plan .auto hd pinned resolved
  have hleft : ∀ k, k ∈ keys registered'.groups ↔
      k ∈ keys registered.groups ∧ (k ∈ pinned ∨ k ∈ keys resolved) ∨
        k ∈ keys resolved ∧ k ∉ pinned := by
    intro k
    rw [hgroups, mem_keys_auto hd]
  rintro (⟨g, hg, hk⟩ | ⟨g, hg, hk⟩ | ⟨g, g', hg, hg', hk, hb⟩)
  · have hnew : g.key ∈ keys (Plan.auto registered' pinned resolved').groups :=
      List.mem_map_of_mem hg
    rw [mem_keys_auto hd', hkeys] at hnew
    have hother := (hleft g.key).not.mp hk
    tauto
  · have hold : g.key ∈ keys registered'.groups := List.mem_map_of_mem hg
    rw [mem_keys_auto hd', hkeys] at hk
    have hother := (hleft g.key).mp hold
    tauto
  · by_cases hpinned : g'.key ∈ pinned
    · have hsame := (mem_auto_of_pinned hpinned resolved').mp hg'
      exact hb (congrArg NodeGroup.bounds (hd'.eq_of_key hsame hg hk))
    · have hlast' := bounds_of_mem_auto hd' hg' hpinned
      have hlast := bounds_of_mem_auto hd (hgroups ▸ hg) (hk ▸ hpinned)
      rw [hbounds, hk, hlast] at hlast'
      exact hb (Option.some.inj hlast').symm

/-! ### Snapshots -/

/-- Whether a snapshot differs from another in what it is about. -/
def Differs (s s' : Snapshot) : Prop :=
  Regrouped s.groups s'.groups ∨ ∃ key, s'.instances.get? key ≠ s.instances.get? key

/-- Committing an auto plan makes the next version of a snapshot from which it differs, and keeps
one from which it does not. -/
theorem commit_auto (hd : Distinct registered.groups) (hr : Distinct resolved)
    (index : Table String) :
    (Differs registered ((Plan.auto registered pinned resolved).commit registered index) →
      (Plan.auto registered pinned resolved).commit registered index =
        registered.replace (Plan.auto registered pinned resolved).groups index) ∧
    (¬ Differs registered ((Plan.auto registered pinned resolved).commit registered index) →
      (Plan.auto registered pinned resolved).commit registered index = registered) := by
  unfold Plan.commit Plan.installed?
  split_ifs with hsame
  · refine ⟨fun h ↦ ?_, fun _ ↦ rfl⟩
    rcases h with hregrouped | ⟨key, hkey⟩
    · exact absurd hregrouped hd.not_regrouped
    · exact absurd rfl hkey
  · refine ⟨fun _ ↦ rfl, fun h ↦ absurd ?_ h⟩
    by_cases hchanged : (Plan.auto registered pinned resolved).changed = true
    · exact Or.inl ((changed_auto_iff hd hr).mp hchanged)
    · refine Or.inr ?_
      have hindex : ¬ registered.instances.agrees index = true := by
        simpa [hchanged] using hsame
      rw [Table.agrees_iff] at hindex
      push Not at hindex
      obtain ⟨key, hkey⟩ := hindex
      exact ⟨key, hkey.symm⟩

/-- How a snapshot follows another: its groups follow those of the other, it is the next version if
anything differs, and else it is the very same. -/
structure Renewed (New : NodeGroup → Prop) (s s' : Snapshot) : Prop where
  groups : Renewal New s.groups s'.groups
  version : s'.version = s.version + 1 ↔ Differs s s'
  stays : ¬ Differs s s' → s' = s

theorem renewed_commit_auto (hd : Distinct registered.groups) (hr : Distinct resolved)
    (index : Table String) :
    Renewed (· ∈ resolved) registered
      ((Plan.auto registered pinned resolved).commit registered index) := by
  obtain ⟨hnext, hstays⟩ := @commit_auto registered pinned resolved hd hr index
  refine ⟨?_, ⟨fun hversion ↦ ?_, fun hdiffers ↦ ?_⟩, hstays⟩
  · rw [Plan.groups_commit (Plan.marked_auto registered pinned resolved)]
    exact renewal_auto hd hr
  · by_contra hsame
    rw [hstays hsame] at hversion
    exact absurd hversion (Nat.ne_of_lt (Nat.lt_succ_self _))
  · exact congrArg Snapshot.version (hnext hdiffers)

theorem Renewed.imp {New New' : NodeGroup → Prop} {s s' : Snapshot} (h : Renewed New s s')
    (himp : ∀ g ∈ s'.groups, New g → New' g) : Renewed New' s s' :=
  ⟨h.groups.imp himp, h.version, h.stays⟩

end Discovery

end NodeFleet
