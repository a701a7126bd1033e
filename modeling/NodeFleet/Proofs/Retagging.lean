import NodeFleet.Proofs.Serial
import NodeFleet.Proofs.SizeTags
/-!
Listings that differ in size tags of pinned scale sets. Selectors that mention neither tag select
the same scale sets from both, with the same bounds but for pinned names. Those an auto discovery
sets aside; so it plans the same groups from both, unless it refuses one of them.
-/

set_option autoImplicit false
set_option relaxedAutoImplicit false

namespace NodeFleet

open NodeFleet.Discovery

/-! ### Scale sets -/

/-- Whether the scale sets differ at most in their size tags, and only if the name is pinned. -/
structure ScaleSet.Retagged (pinned : List String) (s s' : ScaleSet) : Prop where
  name : s'.name = s.name
  capacity : s'.capacity = s.capacity
  tags : ∀ tag, s'.tags.get? tag = s.tags.get? tag ∨
    Text.lower s.name ∈ pinned ∧ (tag = minTag ∨ tag = maxTag)

/-- Whether the selector has neither size tag among its keys. -/
structure Selector.Silent (s : Selector) : Prop where
  min : s.pairs.get? minTag = none
  max : s.pairs.get? maxTag = none

/-- Candidates of one name, with the same bounds unless the name is pinned. -/
structure Discovery.Candidate.Retagged (pinned : List String) (c c' : Candidate) : Prop where
  name : c'.name = c.name
  same : Text.lower c.name ∉ pinned → c' = c

/-- Groups of one name, the same handle unless the name is pinned. -/
structure NodeGroup.Retagged (pinned : List String) (g g' : NodeGroup) : Prop where
  name : g'.name = g.name
  same : g.key ∉ pinned → g' = g

section

variable {pinned : List String} {s s' : ScaleSet} {selectors : List Selector}
  {listing listing' : List ScaleSet} {candidates candidates' : List Candidate}

theorem ScaleSet.Retagged.symm (h : s.Retagged pinned s') : s'.Retagged pinned s := by
  refine ⟨h.name.symm, h.capacity.symm, fun tag ↦ (h.tags tag).imp Eq.symm fun hpinned ↦ ?_⟩
  rw [h.name]
  exact hpinned

theorem ScaleSet.Retagged.selects {selector : Selector} (h : s.Retagged pinned s')
    (hsilent : selector.Silent) : selector.Selects s'.tags ↔ selector.Selects s.tags := by
  have hget : ∀ key value, selector.pairs.get? key = some value →
      s'.tags.get? key = s.tags.get? key := by
    intro key value hkey
    refine (h.tags key).resolve_right ?_
    rintro ⟨-, rfl | rfl⟩
    · rw [hsilent.min] at hkey
      cases hkey
    · rw [hsilent.max] at hkey
      cases hkey
  constructor
  · exact fun ⟨hkeyed, htagged⟩ ↦ ⟨hkeyed, fun key value hkey ↦
      (hget key value hkey).symm.trans (htagged key value hkey)⟩
  · exact fun ⟨hkeyed, htagged⟩ ↦ ⟨hkeyed, fun key value hkey ↦
      (hget key value hkey).trans (htagged key value hkey)⟩

theorem ScaleSet.Retagged.isSelected (h : s.Retagged pinned s')
    (hsilent : ∀ x ∈ selectors, x.Silent) :
    isSelected selectors s = true ↔ isSelected selectors s' = true := by
  rw [isSelected_iff, isSelected_iff]
  exact exists_congr fun x ↦ and_congr_right fun hx ↦ (h.selects (hsilent x hx)).symm

theorem ScaleSet.Retagged.candidate (h : s.Retagged pinned s') (hs : Text.lower s.name ∉ pinned) :
    candidate s' = candidate s := by
  have htags : ∀ tag, s'.tags.get? tag = s.tags.get? tag := fun tag ↦
    (h.tags tag).resolve_right fun hpinned ↦ hs hpinned.1
  unfold Discovery.candidate sizeBounds minSize maxSize
  rw [htags, htags, h.name]

/-! ### Candidates and groups -/

theorem forall₂_filter_isSelected (h : List.Forall₂ (ScaleSet.Retagged pinned) listing listing')
    (hsilent : ∀ x ∈ selectors, x.Silent) :
    List.Forall₂ (ScaleSet.Retagged pinned) (listing.filter (isSelected selectors))
      (listing'.filter (isSelected selectors)) :=
  List.rel_filter (fun _ _ hs ↦ hs.isSelected hsilent) h

theorem retagged_candidate {c c' : Candidate} (h : s.Retagged pinned s') (hc : candidate s = .ok c)
    (hc' : candidate s' = .ok c') : c.Retagged pinned c' := by
  have hname : c.name = s.name := (candidate_eq_ok_iff.mp hc).1
  have hname' : c'.name = s'.name := (candidate_eq_ok_iff.mp hc').1
  refine ⟨by rw [hname, hname', h.name], fun hout ↦ ?_⟩
  rw [hname] at hout
  exact Except.ok.inj (hc'.symm.trans ((h.candidate hout).trans hc))

theorem retagged_candidates (h : List.Forall₂ (ScaleSet.Retagged pinned) listing listing')
    (hsilent : ∀ x ∈ selectors, x.Silent)
    (hc : selectedCandidates selectors listing = .ok candidates)
    (hc' : selectedCandidates selectors listing' = .ok candidates') :
    List.Forall₂ (Candidate.Retagged pinned) candidates candidates' := by
  have hselected := forall₂_filter_isSelected h hsilent
  have hpairs := forall₂_of_mapM hc
  have hpairs' := forall₂_of_mapM hc'
  generalize listing.filter (isSelected selectors) = scaleSets at hselected hpairs
  generalize listing'.filter (isSelected selectors) = scaleSets' at hselected hpairs'
  clear h hc hc'
  induction hselected generalizing candidates candidates' with
  | nil =>
    cases hpairs
    cases hpairs'
    exact .nil
  | cons hs hrest ih =>
    cases hpairs with
    | cons hc hpairs =>
      cases hpairs' with
      | cons hc' hpairs' => exact .cons (retagged_candidate hs hc hc') (ih hpairs hpairs')

theorem retagged_handles (h : List.Forall₂ (Candidate.Retagged pinned) candidates candidates')
    (serial : Nat) :
    List.Forall₂ (NodeGroup.Retagged pinned) (Fleet.handles serial candidates)
      (Fleet.handles serial candidates') := by
  induction h generalizing serial with
  | nil => exact .nil
  | @cons c c' rest rest' hc hrest ih =>
    refine .cons ⟨hc.name, fun hout ↦ ?_⟩ (ih (serial + 1))
    obtain rfl := hc.same hout
    rfl

variable {resolved resolved' : List NodeGroup}

theorem keys_of_retagged (h : List.Forall₂ (NodeGroup.Retagged pinned) resolved resolved') :
    keys resolved' = keys resolved := by
  unfold keys
  induction h with
  | nil => rfl
  | cons hg hrest ih =>
    rw [List.map_cons, List.map_cons, ih]
    exact congrArg (· :: _) (congrArg Text.lower hg.name)

theorem filter_of_retagged (h : List.Forall₂ (NodeGroup.Retagged pinned) resolved resolved') :
    (resolved'.filter fun g ↦ g.key ∉ pinned) = resolved.filter fun g ↦ g.key ∉ pinned := by
  induction h with
  | nil => rfl
  | @cons g g' rest rest' hg hrest ih =>
    have hkey : g'.key = g.key := congrArg Text.lower hg.name
    rw [List.filter_cons, List.filter_cons, hkey, ih]
    split_ifs with hout
    · rw [hg.same (by simpa using hout)]
    · rfl

/-- Bounds that pinned names are selected with make no difference to an auto plan. -/
theorem plan_of_retagged (h : List.Forall₂ (NodeGroup.Retagged pinned) resolved resolved')
    (registered : Snapshot) :
    Plan.auto registered pinned resolved' = Plan.auto registered pinned resolved := by
  have hkeys : (resolved'.map fun g ↦ Text.lower g.name) = resolved.map fun g ↦ Text.lower g.name :=
    keys_of_retagged h
  have hfilter : (resolved'.filter fun g ↦ Text.lower g.name ∉ pinned) =
      resolved.filter fun g ↦ Text.lower g.name ∉ pinned := filter_of_retagged h
  unfold Plan.auto
  rw [hkeys, hfilter]

/-! ### Refusals -/

variable {e : Error}

theorem refused_cons_iff :
    Refused selectors (s :: listing) e ↔
      s.SelectedBy selectors ∧ s.Missized e ∨
        (s.SelectedBy selectors → ∃ b, s.Sized b) ∧ Refused selectors listing e := by
  constructor
  · rintro ⟨_ | ⟨first, before⟩, x, after, hsplit, hselected, hmissized, hbefore⟩
    · obtain ⟨rfl, rfl⟩ := List.cons.inj hsplit
      exact Or.inl ⟨hselected, hmissized⟩
    · obtain ⟨rfl, rfl⟩ := List.cons.inj hsplit
      obtain ⟨hfirst, hrest⟩ := List.forall_mem_cons.mp hbefore
      exact Or.inr ⟨hfirst, before, x, after, rfl, hselected, hmissized, hrest⟩
  · rintro (⟨hselected, hmissized⟩ | ⟨hfirst, before, x, after, rfl, hselected, hmissized, hrest⟩)
    · exact ⟨[], s, listing, rfl, hselected, hmissized, by simp⟩
    · exact ⟨s :: before, x, after, rfl, hselected, hmissized,
        List.forall_mem_cons.mpr ⟨hfirst, hrest⟩⟩

/-- Whether all pinned scale sets among the selected ones have size tags that state bounds. -/
def PinsSized (selectors : List Selector) (pinned : List String) (listing : List ScaleSet) : Prop :=
  ∀ s ∈ listing, s.SelectedBy selectors → Text.lower s.name ∈ pinned → ∃ b, s.Sized b

theorem refused_of_retagged (h : List.Forall₂ (ScaleSet.Retagged pinned) listing listing')
    (hsilent : ∀ x ∈ selectors, x.Silent) (hsized : PinsSized selectors pinned listing)
    (hsized' : PinsSized selectors pinned listing') (hrefused : Refused selectors listing e) :
    Refused selectors listing' e := by
  induction h with
  | nil => exact hrefused
  | @cons s s' rest rest' hs hrest ih =>
    obtain ⟨hfirst, hsized⟩ := List.forall_mem_cons.mp hsized
    obtain ⟨hfirst', hsized'⟩ := List.forall_mem_cons.mp hsized'
    have hselected : s.SelectedBy selectors ↔ s'.SelectedBy selectors := by
      rw [← isSelected_iff, ← isSelected_iff]
      exact hs.isSelected hsilent
    rw [refused_cons_iff] at hrefused ⊢
    by_cases hpinned : Text.lower s.name ∈ pinned
    · rcases hrefused with ⟨hx, hmissized⟩ | ⟨-, hlater⟩
      · obtain ⟨b, hb⟩ := hfirst hx hpinned
        cases (sizeBounds_of_missized hmissized).symm.trans (sizeBounds_of_sized hb)
      · exact Or.inr ⟨fun hx ↦ hfirst' hx (hs.name ▸ hpinned), ih hsized hsized' hlater⟩
    · have hsame : candidate s' = candidate s := hs.candidate hpinned
      rcases hrefused with ⟨hx, hmissized⟩ | ⟨hgood, hlater⟩
      · rw [← candidate_eq_error_iff, ← hsame, candidate_eq_error_iff] at hmissized
        exact Or.inl ⟨hselected.mp hx, hmissized⟩
      · refine Or.inr ⟨fun hx ↦ ?_, ih hsized hsized' hlater⟩
        obtain ⟨b, hb⟩ := hgood (hselected.mpr hx)
        have hmade : candidate s' = .ok ⟨s.name, b⟩ :=
          hsame.trans (candidate_eq_ok_iff.mpr ⟨rfl, hb⟩)
        exact ⟨b, (candidate_eq_ok_iff.mp hmade).2⟩

/-- Listings of which neither has a bad pinned scale set are refused alike. -/
theorem refused_iff_of_retagged (h : List.Forall₂ (ScaleSet.Retagged pinned) listing listing')
    (hsilent : ∀ x ∈ selectors, x.Silent) (hsized : PinsSized selectors pinned listing)
    (hsized' : PinsSized selectors pinned listing') :
    Refused selectors listing e ↔ Refused selectors listing' e :=
  ⟨refused_of_retagged h hsilent hsized hsized',
    refused_of_retagged (h.flip.imp fun _ _ hs ↦ hs.symm) hsilent hsized' hsized⟩

/-! ### Selections -/

/-- The same failure, or results that are related. -/
inductive Matched {ε β : Type} (R : β → β → Prop) : Except ε β → Except ε β → Prop
  | ok {x y : β} : R x y → Matched R (.ok x) (.ok y)
  | error (e : ε) : Matched R (.error e) (.error e)

theorem Matched.imp {ε β : Type} {R R' : β → β → Prop} {x y : Except ε β} (h : Matched R x y)
    (himp : ∀ a b, x = .ok a → y = .ok b → R a b → R' a b) : Matched R' x y := by
  cases h with
  | ok hr => exact .ok (himp _ _ rfl rfl hr)
  | error e => exact .error e

/-- Listings from which the selectors select the same but for the bounds of pinned names. -/
def SelectedAlike (selectors : List Selector) (pinned : List String)
    (listing listing' : List ScaleSet) : Prop :=
  Matched (List.Forall₂ (Candidate.Retagged pinned)) (selectedCandidates selectors listing)
    (selectedCandidates selectors listing')

theorem selectedAlike_of_retagged (h : List.Forall₂ (ScaleSet.Retagged pinned) listing listing')
    (hsilent : ∀ x ∈ selectors, x.Silent)
    (hrefused : ∀ e, Refused selectors listing e ↔ Refused selectors listing' e) :
    SelectedAlike selectors pinned listing listing' := by
  unfold SelectedAlike
  cases hc : selectedCandidates selectors listing with
  | error e =>
    have hrefused' := (hrefused e).mp (selectedCandidates_eq_error_iff.mp hc)
    rw [selectedCandidates_eq_error_iff.mpr hrefused']
    exact .error e
  | ok candidates =>
    cases hc' : selectedCandidates selectors listing' with
    | error e =>
      have hrefused' := (hrefused e).mpr (selectedCandidates_eq_error_iff.mp hc')
      cases hc.symm.trans (selectedCandidates_eq_error_iff.mpr hrefused')
    | ok candidates' => exact .ok (retagged_candidates h hsilent hc hc')

end

end NodeFleet
