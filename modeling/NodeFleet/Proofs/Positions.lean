import Mathlib.Data.List.Forall2
import NodeFleet.Proofs.Placement
/-!
Where placed groups come to stand, whether names are distinct or not. Each group of a list is dealt
with by those placed of its own name alone. So the groups that were there keep their positions,
those of other names the very handles they were; new names follow in the order in which they first
come; and a name that is placed finds a group with the bounds with which it was placed last.
-/

set_option autoImplicit false
set_option relaxedAutoImplicit false

namespace NodeFleet

variable {names names' : List String} {g g' : NodeGroup} {groups placed : List NodeGroup}
  {k : String}

/-! ### One place -/

/-- What stands in the place of a group after others of its name were placed there. -/
def NodeGroup.overlaid (g : NodeGroup) (placed : List NodeGroup) : NodeGroup :=
  placed.foldl (fun g p ↦ if g.bounds = p.bounds then g else p) g

/-- The groups of a name among those that are placed, and the others. -/
def ofKey (k : String) (groups : List NodeGroup) : List NodeGroup :=
  groups.filter fun g ↦ g.key = k

def ofOtherKeys (k : String) (groups : List NodeGroup) : List NodeGroup :=
  groups.filter fun g ↦ g.key ≠ k

theorem NodeGroup.overlaid_cons (g p : NodeGroup) (placed : List NodeGroup) :
    g.overlaid (p :: placed) = (if g.bounds = p.bounds then g else p).overlaid placed :=
  List.foldl_cons ..

/-- It has the bounds of the last of them. -/
theorem NodeGroup.bounds_overlaid (g : NodeGroup) (placed : List NodeGroup) :
    (g.overlaid placed).bounds = (placed.getLast?.getD g).bounds := by
  induction placed generalizing g with
  | nil => rfl
  | cons p rest ih =>
    rw [overlaid_cons, ih]
    cases rest with
    | nil =>
      show (if g.bounds = p.bounds then g else p).bounds = p.bounds
      split_ifs with h
      · exact h
      · rfl
    | cons q rest => simp [List.getLast?_cons]

theorem NodeGroup.key_overlaid (h : ∀ p ∈ placed, p.key = g.key) :
    (g.overlaid placed).key = g.key := by
  induction placed generalizing g with
  | nil => rfl
  | cons p rest ih =>
    obtain ⟨hp, hrest⟩ := List.forall_mem_cons.mp h
    rw [overlaid_cons]
    split_ifs
    · exact ih hrest
    · rw [ih fun q hq ↦ (hrest q hq).trans hp.symm, hp]

theorem key_of_mem_ofKey (h : g ∈ ofKey k groups) : g.key = k := by
  simpa using List.of_mem_filter h

theorem ofKey_ofOtherKeys (hne : k ≠ g.key) (groups : List NodeGroup) :
    ofKey k (ofOtherKeys g.key groups) = ofKey k groups := by
  unfold ofKey ofOtherKeys
  rw [List.filter_filter]
  refine List.filter_congr fun h _ ↦ ?_
  by_cases hk : h.key = k
  · simp [hk, hne]
  · simp [hk]

theorem ofKey_eq_nil (h : k ∉ keys groups) : ofKey k groups = [] := by
  refine List.filter_eq_nil_iff.mpr fun g hg hk ↦ h ?_
  rw [← of_decide_eq_true hk]
  exact List.mem_map_of_mem hg

theorem keys_ofOtherKeys (k : String) (groups : List NodeGroup) :
    keys (ofOtherKeys k groups) = (keys groups).filter (· ≠ k) := by
  unfold keys ofOtherKeys
  rw [List.filter_map]
  rfl

/-! ### All places -/

/-- Each group is dealt with by those placed of its own name. -/
theorem placeGroups_cons_left (g : NodeGroup) (groups placed : List NodeGroup) :
    (placeGroups (g :: groups) placed).1 =
      g.overlaid (ofKey g.key placed) :: (placeGroups groups (ofOtherKeys g.key placed)).1 := by
  induction placed generalizing g groups with
  | nil => rfl
  | cons p rest ih =>
    rw [placeGroups_cons, placeGroup_cons]
    unfold ofKey ofOtherKeys at ih ⊢
    by_cases hk : g.key = p.key
    · have hp : p.key = g.key := hk.symm
      rw [if_pos hk, List.filter_cons_of_pos (by simpa using hp),
        List.filter_cons_of_neg (by simpa using hp), NodeGroup.overlaid_cons]
      split_ifs
      · exact ih g groups
      · rw [hk]
        exact ih p groups
    · have hp : ¬ p.key = g.key := fun h ↦ hk h.symm
      rw [if_neg hk, List.filter_cons_of_neg (by simpa using hp),
        List.filter_cons_of_pos (by simpa using hp), placeGroups_cons]
      exact ih g (placeGroup p groups).1

/-- Whether a group has come into the place of another of its name, and is that one if its name is
none of the given. -/
def NodeGroup.StandsFor (names : List String) (g g' : NodeGroup) : Prop :=
  g'.key = g.key ∧ (g.key ∉ names → g' = g)

/-- The groups that were there keep their positions. -/
theorem standsFor_placeGroups (groups placed : List NodeGroup) :
    List.Forall₂ (NodeGroup.StandsFor (keys placed)) groups
      ((placeGroups groups placed).1.take groups.length) := by
  induction groups generalizing placed with
  | nil => exact .nil
  | cons g rest ih =>
    rw [placeGroups_cons_left]
    refine .cons ⟨NodeGroup.key_overlaid fun p hp ↦ key_of_mem_ofKey hp, fun hout ↦ ?_⟩
      ((ih (ofOtherKeys g.key placed)).imp fun h h' hh ↦ ⟨hh.1, fun hout ↦ hh.2 fun hmem ↦ ?_⟩)
    · rw [ofKey_eq_nil hout]
      rfl
    · rw [keys_ofOtherKeys] at hmem
      exact hout (List.mem_of_mem_filter hmem)

/-- Known names keep their order, and new ones follow in the order in which they first come. -/
theorem keys_placeGroups_append (groups placed : List NodeGroup) :
    keys (placeGroups groups placed).1 =
      keys groups ++ ((keys placed).filter (· ∉ keys groups)).eraseDups := by
  induction placed generalizing groups with
  | nil => simp [placeGroups, keys]
  | cons g rest ih =>
    have hcons : keys (g :: rest) = g.key :: keys rest := rfl
    rw [placeGroups_cons, ih, keys_placeGroup, hcons]
    by_cases hg : g.key ∈ keys groups
    · simp [hg]
    · rw [if_neg hg, List.filter_cons_of_pos (by simpa using hg), List.eraseDups_cons,
        List.filter_filter, List.append_assoc, List.singleton_append]
      congr 3
      refine List.filter_congr fun k _ ↦ ?_
      by_cases hk : k = g.key
      · simp [hk]
      · simp [hk]

theorem find?_placeGroup (p : NodeGroup) (groups : List NodeGroup) (k : String) :
    (placeGroup p groups).1.find? (fun g ↦ g.key = k) =
      if p.key = k then some (((groups.find? fun g ↦ g.key = k).getD p).overlaid [p])
      else groups.find? fun g ↦ g.key = k := by
  induction groups with
  | nil =>
    by_cases hp : p.key = k
    · simp [placeGroup, hp, NodeGroup.overlaid]
    · simp [placeGroup, hp]
  | cons first rest ih =>
    rw [placeGroup_cons]
    by_cases hfirst : first.key = p.key
    · by_cases hp : p.key = k
      · by_cases hb : first.bounds = p.bounds
        · simp [hfirst, hp, hb, NodeGroup.overlaid]
        · simp [hfirst, hp, hb, NodeGroup.overlaid]
      · by_cases hb : first.bounds = p.bounds
        · simp [hfirst, hp, hb]
        · simp [hfirst, hp, hb]
    · rw [if_neg hfirst]
      by_cases hk : first.key = k
      · have hp : ¬ p.key = k := fun h ↦ hfirst (hk.trans h.symm)
        simp [hk, hp]
      · simp [hk, ih]

/-- A name finds the first group that had it, or else the first that is placed with it, overlaid
with all that are placed with it. -/
theorem find?_placeGroups (groups placed : List NodeGroup) (k : String) :
    (placeGroups groups placed).1.find? (fun g ↦ g.key = k) =
      ((groups.find? fun g ↦ g.key = k).or (ofKey k placed).head?).map
        fun g ↦ g.overlaid (ofKey k placed) := by
  induction placed generalizing groups with
  | nil =>
    show groups.find? _ = ((groups.find? _).or none).map fun g ↦ g
    rw [Option.or_none, Option.map_id']
  | cons p rest ih =>
    rw [placeGroups_cons, ih, find?_placeGroup]
    by_cases hp : p.key = k
    · have hcons : ofKey k (p :: rest) = p :: ofKey k rest :=
        List.filter_cons_of_pos (by simpa using hp)
      rw [if_pos hp, hcons]
      cases groups.find? fun g ↦ g.key = k <;> rfl
    · have hcons : ofKey k (p :: rest) = ofKey k rest :=
        List.filter_cons_of_neg (by simpa using hp)
      rw [if_neg hp, hcons]

theorem ofKey_ne_nil (hk : k ∈ keys groups) : ofKey k groups ≠ [] := by
  obtain ⟨g, hg, rfl⟩ := List.mem_map.mp hk
  exact List.ne_nil_of_mem (List.mem_filter.mpr ⟨hg, decide_eq_true rfl⟩)

/-- A name that is placed is found. -/
theorem exists_find?_placeGroups (hk : k ∈ keys placed) (groups : List NodeGroup) :
    ∃ g : NodeGroup, (placeGroups groups placed).1.find? (fun h ↦ h.key = k) =
      some (g.overlaid (ofKey k placed)) := by
  rw [find?_placeGroups]
  cases groups.find? fun g ↦ g.key = k with
  | some g => exact ⟨g, rfl⟩
  | none =>
    cases hfirst : (ofKey k placed).head? with
    | none => exact absurd (List.head?_eq_none_iff.mp hfirst) (ofKey_ne_nil hk)
    | some p => exact ⟨p, rfl⟩

theorem getLast?_ofKey (k : String) (groups : List NodeGroup) :
    (ofKey k groups).getLast? = lastNamed? k groups := by
  unfold ofKey lastNamed?
  rw [List.findRev?_eq_find?_reverse, ← List.head?_filter, List.getLast?_eq_head?_reverse,
    List.filter_reverse]

theorem exists_lastNamed? (hk : k ∈ keys groups) : ∃ g, lastNamed? k groups = some g := by
  rw [← getLast?_ofKey]
  exact ⟨_, List.getLast?_eq_some_getLast (ofKey_ne_nil hk)⟩

end NodeFleet
