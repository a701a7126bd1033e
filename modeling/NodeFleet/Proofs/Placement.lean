import Mathlib.Data.List.Nodup
import NodeFleet.Registry
/-!
Placing groups in a list of groups. The names of the list stay distinct, whatever their case; known
names keep their order and new ones follow in the order in which they come; a name that is placed
has the bounds it was placed with last, and every other group stays the very handle it was.
-/

set_option autoImplicit false
set_option relaxedAutoImplicit false

namespace NodeFleet

/-- The name by which a group is told from others. -/
def NodeGroup.key (g : NodeGroup) : String :=
  Text.lower g.name

def keys (groups : List NodeGroup) : List String :=
  groups.map NodeGroup.key

def Distinct (groups : List NodeGroup) : Prop :=
  (keys groups).Nodup

theorem eraseDups_eq_self {l : List String} (h : l.Nodup) : l.eraseDups = l := by
  induction l with
  | nil => rfl
  | cons a rest ih =>
    rw [List.nodup_cons] at h
    have hrest : (rest.filter fun b ↦ !b == a) = rest := by
      rw [List.filter_eq_self]
      intro b hb
      have hne : b ≠ a := fun e ↦ h.1 (e ▸ hb)
      simpa using hne
    rw [List.eraseDups_cons, hrest, ih h.2]

theorem findRev?_cons {α : Type} (p : α → Bool) (a : α) (l : List α) :
    (a :: l).findRev? p = (l.findRev? p).or (if p a then some a else none) := by
  rw [List.findRev?]
  cases l.findRev? p <;> rfl

theorem findRev?_map {α β : Type} (g : α → β) (p : β → Bool) (l : List α) :
    (l.map g).findRev? p = (l.findRev? (p ∘ g)).map g := by
  rw [List.findRev?_eq_find?_reverse, List.findRev?_eq_find?_reverse, ← List.map_reverse,
    List.find?_map]

theorem findRev?_filter {α : Type} (p q : α → Bool) (l : List α) :
    (l.filter p).findRev? q = l.findRev? fun a ↦ p a && q a := by
  rw [List.findRev?_eq_find?_reverse, List.findRev?_eq_find?_reverse, ← List.filter_reverse,
    List.find?_filter]
  simp

/-- The last element that passes a test, and those after it, none of which does. -/
theorem findRev?_eq_some_iff {α : Type} {p : α → Bool} {l : List α} {a : α} :
    l.findRev? p = some a ↔
      ∃ before after, l = before ++ a :: after ∧ p a = true ∧ ∀ b ∈ after, p b = false := by
  rw [List.findRev?_eq_find?_reverse, List.find?_eq_some_iff_append]
  constructor
  · rintro ⟨hp, after, before, hl, hafter⟩
    refine ⟨before.reverse, after.reverse, ?_, hp, fun b hb ↦ ?_⟩
    · have h := congrArg List.reverse hl
      simpa using h
    · simpa using hafter b (List.mem_reverse.mp hb)
  · rintro ⟨before, after, rfl, hp, hafter⟩
    refine ⟨hp, after.reverse, before.reverse, by simp, fun b hb ↦ ?_⟩
    simpa using hafter b (List.mem_reverse.mp hb)

theorem mem_of_findRev? {α : Type} {p : α → Bool} {l : List α} {a : α} (h : l.findRev? p = some a) :
    a ∈ l ∧ p a = true := by
  obtain ⟨before, after, rfl, hp, -⟩ := findRev?_eq_some_iff.mp h
  exact ⟨by simp, hp⟩

/-! ### One group -/

theorem placeGroup_cons (g h : NodeGroup) (rest : List NodeGroup) :
    placeGroup g (h :: rest) =
      if h.key = g.key then
        if h.bounds = g.bounds then (h :: rest, false) else (g :: rest, true)
      else (h :: (placeGroup g rest).1, (placeGroup g rest).2) := rfl

theorem keys_placeGroup (g : NodeGroup) (groups : List NodeGroup) :
    keys (placeGroup g groups).1 =
      if g.key ∈ keys groups then keys groups else keys groups ++ [g.key] := by
  induction groups with
  | nil => simp [placeGroup, keys]
  | cons h rest ih =>
    rw [placeGroup_cons]
    by_cases hk : h.key = g.key
    · by_cases hb : h.bounds = g.bounds <;> simp [hk, hb, keys]
    · have hcons : keys (h :: rest) = h.key :: keys rest := rfl
      have hmem : g.key ∈ keys (h :: rest) ↔ g.key ∈ keys rest := by
        rw [hcons, List.mem_cons]
        exact ⟨fun hm ↦ hm.resolve_left fun e ↦ hk e.symm, Or.inr⟩
      rw [if_neg hk, show keys (h :: (placeGroup g rest).1) = h.key :: keys (placeGroup g rest).1
        from rfl, ih, hcons]
      by_cases hg : g.key ∈ keys rest
      · rw [if_pos hg, if_pos (List.mem_cons_of_mem _ hg)]
      · rw [if_neg hg, if_neg (hcons ▸ fun hm ↦ hg (hmem.mp hm)), List.cons_append]

theorem Distinct.placeGroup {groups : List NodeGroup} (h : Distinct groups) (g : NodeGroup) :
    Distinct (placeGroup g groups).1 := by
  unfold Distinct at *
  rw [keys_placeGroup]
  split_ifs with hg
  · exact h
  · exact List.nodup_append.mpr ⟨h, List.nodup_singleton _, by
      intro a ha b hb
      rw [List.mem_singleton] at hb
      exact fun e ↦ hg (hb ▸ e ▸ ha)⟩

/-- Placing a group leaves those of other names the very handles they were. -/
theorem mem_placeGroup_of_ne {g h : NodeGroup} (hk : h.key ≠ g.key) (groups : List NodeGroup) :
    h ∈ (placeGroup g groups).1 ↔ h ∈ groups := by
  induction groups with
  | nil =>
    have hne : h ≠ g := fun e ↦ hk (e ▸ rfl)
    simp [placeGroup, hne]
  | cons first rest ih =>
    rw [placeGroup_cons]
    by_cases hf : first.key = g.key
    · have hne : h ≠ g := fun e ↦ hk (e ▸ rfl)
      have hne' : h ≠ first := fun e ↦ hk (e ▸ hf)
      by_cases hb : first.bounds = g.bounds <;> simp [hf, hb, hne, hne']
    · simp [hf, ih]

theorem bounds_of_mem_placeGroup {g h : NodeGroup} {groups : List NodeGroup}
    (hd : Distinct groups) (hm : h ∈ (placeGroup g groups).1) (hk : h.key = g.key) :
    h.bounds = g.bounds := by
  induction groups with
  | nil =>
    have he : h = g := by simpa [placeGroup] using hm
    rw [he]
  | cons first rest ih =>
    obtain ⟨hfirst, hrest⟩ := List.nodup_cons.mp hd
    rw [placeGroup_cons] at hm
    by_cases hf : first.key = g.key
    · have hout : h ∉ rest := fun hr ↦ hfirst (by
        rw [hf, ← hk]
        exact List.mem_map_of_mem hr)
      by_cases hb : first.bounds = g.bounds
      · have he : h = first := by simpa [hf, hb, hout] using hm
        rw [he, hb]
      · have he : h = g := by simpa [hf, hb, hout] using hm
        rw [he]
    · have hne : h ≠ first := fun e ↦ hf (e ▸ hk)
      exact ih hrest (by simpa [hf, hne] using hm)

theorem placeGroup_of_unchanged {g : NodeGroup} {groups : List NodeGroup}
    (h : (placeGroup g groups).2 = false) : (placeGroup g groups).1 = groups := by
  induction groups with
  | nil => simp [placeGroup] at h
  | cons first rest ih =>
    rw [placeGroup_cons] at h ⊢
    by_cases hf : first.key = g.key
    · by_cases hb : first.bounds = g.bounds
      · simp [hf, hb]
      · simp [hf, hb] at h
    · simp only [hf, if_false] at h ⊢
      rw [ih h]

/-- A name finds the one group that has it. -/
theorem Distinct.find?_eq_some {s : Snapshot} (h : Distinct s.groups) {g : NodeGroup}
    (hg : g ∈ s.groups) {name : String} (hn : g.Named name) : s.find? name = some g := by
  unfold Snapshot.find?
  generalize s.groups = groups at h hg
  induction groups with
  | nil => cases hg
  | cons first rest ih =>
    obtain ⟨hfirst, hrest⟩ := List.nodup_cons.mp h
    rcases List.mem_cons.mp hg with rfl | hmem
    · rw [List.find?_cons_of_pos (by simpa using hn)]
    · have hne : ¬ first.Named name := by
        intro hnamed
        have hkey : first.key = g.key := Eq.trans hnamed hn.symm
        exact hfirst (hkey ▸ List.mem_map_of_mem hmem)
      rw [List.find?_cons_of_neg (by simpa using hne)]
      exact ih hrest hmem

theorem mem_of_find? {s : Snapshot} {name : String} {g : NodeGroup} (h : s.find? name = some g) :
    g ∈ s.groups ∧ g.Named name :=
  ⟨List.mem_of_find?_eq_some h, by simpa using List.find?_some h⟩

/-! ### One group after the other -/

theorem placeGroups_cons (groups : List NodeGroup) (g : NodeGroup) (rest : List NodeGroup) :
    placeGroups groups (g :: rest) =
      ((placeGroups (placeGroup g groups).1 rest).1,
        (placeGroup g groups).2 || (placeGroups (placeGroup g groups).1 rest).2) := rfl

theorem Distinct.placeGroups {groups : List NodeGroup} (h : Distinct groups)
    (placed : List NodeGroup) : Distinct (placeGroups groups placed).1 := by
  induction placed generalizing groups with
  | nil => exact h
  | cons g rest ih =>
    rw [placeGroups_cons]
    exact ih (h.placeGroup g)

/-- Known names keep their order, and new ones follow in the order in which they first come. -/
theorem keys_placeGroups {groups : List NodeGroup} (h : Distinct groups)
    (placed : List NodeGroup) :
    keys (placeGroups groups placed).1 = (keys groups ++ keys placed).eraseDups := by
  induction placed generalizing groups with
  | nil =>
    rw [show keys [] = [] from rfl, List.append_nil, eraseDups_eq_self h]
    rfl
  | cons g rest ih =>
    rw [placeGroups_cons, ih (h.placeGroup g), keys_placeGroup]
    have hcons : keys (g :: rest) = [g.key] ++ keys rest := rfl
    split_ifs with hg
    · have hdrop : [g.key].removeAll (keys groups) = [] := by
        simp [List.removeAll, hg]
      have hsame : (keys groups ++ [g.key]).eraseDups = (keys groups).eraseDups := by
        rw [List.eraseDups_append, hdrop]
        simp
      have hboth : (keys groups ++ [g.key] ++ keys rest).eraseDups =
          (keys groups ++ [g.key]).eraseDups ++
            ((keys rest).removeAll (keys groups ++ [g.key])).eraseDups := List.eraseDups_append
      rw [hcons, ← List.append_assoc, hboth, List.eraseDups_append, hsame]
      congr 2
      simp only [List.removeAll]
      apply List.filter_congr
      intro k _
      by_cases hk : k = g.key
      · simp [hk, hg]
      · simp [hk]
    · rw [hcons, List.append_assoc]

theorem mem_placeGroups_of_notMem {h : NodeGroup} {placed : List NodeGroup}
    (hk : h.key ∉ keys placed) (groups : List NodeGroup) :
    h ∈ (placeGroups groups placed).1 ↔ h ∈ groups := by
  induction placed generalizing groups with
  | nil => rfl
  | cons g rest ih =>
    have hne : h.key ≠ g.key := fun e ↦ hk (by simp [keys, e])
    have hrest : h.key ∉ keys rest := fun hm ↦ hk (List.mem_cons_of_mem _ hm)
    rw [placeGroups_cons, ih hrest, mem_placeGroup_of_ne hne]

/-- The last of the groups of a name. -/
def lastNamed? (key : String) (groups : List NodeGroup) : Option NodeGroup :=
  groups.findRev? fun g ↦ g.key = key

/-- A name that is placed has the bounds with which it was placed last. -/
theorem bounds_of_mem_placeGroups {h : NodeGroup} {groups placed : List NodeGroup}
    (hd : Distinct groups) (hm : h ∈ (placeGroups groups placed).1)
    (hk : h.key ∈ keys placed) :
    (lastNamed? h.key placed).map NodeGroup.bounds = some h.bounds := by
  induction placed generalizing groups with
  | nil => simp [keys] at hk
  | cons g rest ih =>
    rw [placeGroups_cons] at hm
    by_cases hrest : h.key ∈ keys rest
    · have hlast := ih (hd.placeGroup g) hm hrest
      obtain ⟨last, hfound, hbounds⟩ := Option.map_eq_some_iff.mp hlast
      unfold lastNamed? at hfound ⊢
      rw [List.findRev?_eq_find?_reverse] at hfound ⊢
      rw [List.reverse_cons, List.find?_append, hfound]
      simp [hbounds]
    · have hg : h.key = g.key := by
        rcases List.mem_cons.mp hk with he | hm'
        · exact he
        · exact absurd hm' hrest
      have hnone : (rest.reverse.find? fun r ↦ decide (r.key = h.key)) = none := by
        rw [List.find?_eq_none]
        intro r hr
        have hr' : r.key ≠ h.key := fun e ↦ hrest (by
          rw [← e]
          exact List.mem_map_of_mem (List.mem_reverse.mp hr))
        simpa using hr'
      have hb : h.bounds = g.bounds :=
        bounds_of_mem_placeGroup hd ((mem_placeGroups_of_notMem hrest _).mp hm) hg
      unfold lastNamed?
      rw [List.findRev?_eq_find?_reverse, List.reverse_cons, List.find?_append, hnone]
      simp [hg, hb]

theorem placeGroups_of_unchanged {groups placed : List NodeGroup}
    (h : (placeGroups groups placed).2 = false) : (placeGroups groups placed).1 = groups := by
  induction placed generalizing groups with
  | nil => rfl
  | cons g rest ih =>
    rw [placeGroups_cons] at h ⊢
    obtain ⟨hfirst, hrest⟩ := Bool.or_eq_false_iff.mp h
    rw [placeGroup_of_unchanged hfirst] at hrest ⊢
    exact ih hrest

end NodeFleet
