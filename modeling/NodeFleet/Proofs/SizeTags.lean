import NodeFleet.Discovery.Resolve
import NodeFleet.Proofs.Literals
import NodeFleet.Proofs.Traversals
/-!
Selected scale sets and their size tags. Selectors give candidates of a listing just when the tags
of every scale set that one of them matches state bounds, one candidate for each in their order; or
else the listing is refused for the first of them whose tags do not, by the first check that they
fail.
-/

set_option autoImplicit false
set_option relaxedAutoImplicit false

namespace NodeFleet

open NodeFleet.Discovery NodeFleet.Number

/-! ### Selectors -/

/-- Whether the tags have each key of the selector with an equal value, and it has a key. -/
structure Selector.Selects (s : Selector) (tags : Table String) : Prop where
  keyed : ∃ key value, s.pairs.get? key = some value
  tagged : ∀ key value, s.pairs.get? key = some value → tags.get? key = some value

theorem Table.isEmpty_eq_false_iff {α : Type} (t : Table α) :
    t.isEmpty = false ↔ ∃ key value, t.get? key = some value := by
  simp only [t.get?_eq_some_iff]
  unfold Table.isEmpty
  cases t.entries with
  | nil => simp
  | cons e rest => simpa using ⟨e.1, e.2, Or.inl rfl⟩

theorem Selector.matchesTags_iff {s : Selector} {tags : Table String} :
    s.matchesTags tags = true ↔ s.Selects tags := by
  unfold Selector.matchesTags
  rw [Bool.and_eq_true, Bool.not_eq_true', Table.isEmpty_eq_false_iff, Table.within_iff]
  exact ⟨fun h ↦ ⟨h.1, h.2⟩, fun h ↦ ⟨h.1, h.2⟩⟩

/-- Whether at least one of the selectors matches the scale set. -/
def ScaleSet.SelectedBy (s : ScaleSet) (selectors : List Selector) : Prop :=
  ∃ selector ∈ selectors, selector.Selects s.tags

theorem isSelected_iff {selectors : List Selector} {s : ScaleSet} :
    isSelected selectors s = true ↔ s.SelectedBy selectors := by
  unfold isSelected
  simp only [List.any_eq_true, Selector.matchesTags_iff]
  rfl

instance (selectors : List Selector) (s : ScaleSet) : Decidable (s.SelectedBy selectors) :=
  decidable_of_iff _ isSelected_iff

theorem filter_isSelected (selectors : List Selector) (listing : List ScaleSet) :
    listing.filter (isSelected selectors) =
      listing.filter fun s ↦ s.SelectedBy selectors := by
  refine List.filter_congr fun s _ ↦ ?_
  rw [Bool.eq_iff_iff, isSelected_iff, decide_eq_true_iff]

/-! ### Size tags -/

/-- Whether a tag is a literal of a number that fits a signed word of 64 bits. -/
def Table.States (tags : Table String) (tag : String) (n : Int) : Prop :=
  ∃ text, tags.get? tag = some text ∧ IntLiteral text.toList n ∧
    -9223372036854775808 ≤ n ∧ n ≤ 9223372036854775807

/-- Whether there is a tag that is no such literal, for the given fault. -/
def Table.Misstates (tags : Table String) (tag : String) (fault : IntegerFault) : Prop :=
  ∃ text, tags.get? tag = some text ∧ IntMisread maxSigned64 text.toList fault

/-- Whether the size tags state the bounds. -/
structure ScaleSet.Sized (s : ScaleSet) (b : Bounds) : Prop where
  min : s.tags.States minTag b.min
  max : s.tags.States maxTag b.max
  lt : b.min < b.max

/-- The first check that the size tags fail, as the error that tells of it. -/
inductive ScaleSet.Missized (s : ScaleSet) : Error → Prop
  | missingMin : s.tags.get? minTag = none → s.Missized (.missingMinimumSize s.name)
  | invalidMin {fault : IntegerFault} : s.tags.Misstates minTag fault →
      s.Missized (.invalidMinimumSize s.name fault)
  | negativeMin {min : Int} : s.tags.States minTag min → min < 0 →
      s.Missized (.negativeMinimumSize s.name min)
  | missingMax {min : Int} : s.tags.States minTag min → 0 ≤ min → s.tags.get? maxTag = none →
      s.Missized (.missingMaximumSize s.name)
  | invalidMax {min : Int} {fault : IntegerFault} : s.tags.States minTag min → 0 ≤ min →
      s.tags.Misstates maxTag fault → s.Missized (.invalidMaximumSize s.name fault)
  | order {min max : Int} : s.tags.States minTag min → 0 ≤ min → s.tags.States maxTag max →
      max ≤ min → s.Missized (.maximumNotGreaterThanMinimum s.name min max)

variable {s : ScaleSet} {tags : Table String} {tag : String}

theorem states_iff_readInt {n : Int} :
    tags.States tag n ↔
      ∃ text, tags.get? tag = some text ∧ readInt maxSigned64 text.toList = .ok n := by
  have hbound : (maxSigned64 : Int) = 9223372036854775807 := by decide
  unfold Table.States
  simp only [readInt_eq_ok_iff, hbound]
  refine exists_congr fun text ↦ and_congr_right fun _ ↦ and_congr_right fun _ ↦ ?_
  omega

/-- A tag is not there, states a number, or is there and states none. -/
theorem tag_cases (tags : Table String) (tag : String) :
    tags.get? tag = none ∨ (∃ n, tags.States tag n) ∨ ∃ fault, tags.Misstates tag fault := by
  cases hget : tags.get? tag with
  | none => exact Or.inl rfl
  | some text =>
    refine Or.inr ?_
    cases hread : readInt maxSigned64 text.toList with
    | ok n => exact Or.inl ⟨n, states_iff_readInt.mpr ⟨text, hget, hread⟩⟩
    | error fault => exact Or.inr ⟨fault, text, hget, readInt_eq_error_iff.mp hread⟩

theorem minSize_of_states {n : Int} (h : s.tags.States minTag n) :
    minSize s = if n < 0 then .error (.negativeMinimumSize s.name n) else .ok n := by
  obtain ⟨text, hget, hread⟩ := states_iff_readInt.mp h
  simp only [minSize, hget, hread]

theorem minSize_of_misstates {fault : IntegerFault} (h : s.tags.Misstates minTag fault) :
    minSize s = .error (.invalidMinimumSize s.name fault) := by
  obtain ⟨text, hget, hmisread⟩ := h
  simp only [minSize, hget, readInt_eq_error_iff.mpr hmisread]

theorem maxSize_of_states {min n : Int} (h : s.tags.States maxTag n) :
    maxSize s min =
      if n ≤ min then .error (.maximumNotGreaterThanMinimum s.name min n) else .ok n := by
  obtain ⟨text, hget, hread⟩ := states_iff_readInt.mp h
  simp only [maxSize, hget, hread]

theorem maxSize_of_misstates {min : Int} {fault : IntegerFault}
    (h : s.tags.Misstates maxTag fault) :
    maxSize s min = .error (.invalidMaximumSize s.name fault) := by
  obtain ⟨text, hget, hmisread⟩ := h
  simp only [maxSize, hget, readInt_eq_error_iff.mpr hmisread]

theorem sizeBounds_of_sized {b : Bounds} (h : s.Sized b) : sizeBounds s = .ok b := by
  have hlt := h.lt
  have hmin : ¬ (b.min : Int) < 0 := by omega
  have hmax : ¬ (b.max : Int) ≤ b.min := by omega
  simp only [sizeBounds, minSize_of_states h.min, maxSize_of_states h.max, if_neg hmin,
    if_neg hmax, Int.toNat_natCast]

theorem sizeBounds_of_missized {e : Error} (h : s.Missized e) : sizeBounds s = .error e := by
  cases h with
  | missingMin hmin => simp only [sizeBounds, minSize, hmin]
  | invalidMin hmin => simp only [sizeBounds, minSize_of_misstates hmin]
  | negativeMin hmin hneg => simp only [sizeBounds, minSize_of_states hmin, if_pos hneg]
  | missingMax hmin hnonneg hmax =>
    simp only [sizeBounds, minSize_of_states hmin, if_neg (Int.not_lt.mpr hnonneg), maxSize, hmax]
  | invalidMax hmin hnonneg hmax =>
    simp only [sizeBounds, minSize_of_states hmin, if_neg (Int.not_lt.mpr hnonneg),
      maxSize_of_misstates hmax]
  | order hmin hnonneg hmax hle =>
    simp only [sizeBounds, minSize_of_states hmin, if_neg (Int.not_lt.mpr hnonneg),
      maxSize_of_states hmax, if_pos hle]

/-- Size tags state bounds or fail a first check. -/
theorem sized_or_missized (s : ScaleSet) : (∃ b, s.Sized b) ∨ ∃ e, s.Missized e := by
  rcases tag_cases s.tags minTag with hmin | ⟨min, hmin⟩ | ⟨fault, hmin⟩
  · exact Or.inr ⟨_, .missingMin hmin⟩
  · by_cases hneg : min < 0
    · exact Or.inr ⟨_, .negativeMin hmin hneg⟩
    · have hnonneg : 0 ≤ min := Int.not_lt.mp hneg
      rcases tag_cases s.tags maxTag with hmax | ⟨max, hmax⟩ | ⟨fault, hmax⟩
      · exact Or.inr ⟨_, .missingMax hmin hnonneg hmax⟩
      · by_cases hle : max ≤ min
        · exact Or.inr ⟨_, .order hmin hnonneg hmax hle⟩
        · refine Or.inl ⟨⟨min.toNat, max.toNat⟩, ?_, ?_, by dsimp only; omega⟩
          · rw [Int.toNat_of_nonneg hnonneg]
            exact hmin
          · rw [Int.toNat_of_nonneg (by omega)]
            exact hmax
      · exact Or.inr ⟨_, .invalidMax hmin hnonneg hmax⟩
  · exact Or.inr ⟨_, .invalidMin hmin⟩

theorem sizeBounds_eq_ok_iff {b : Bounds} : sizeBounds s = .ok b ↔ s.Sized b := by
  refine ⟨fun h ↦ ?_, sizeBounds_of_sized⟩
  rcases sized_or_missized s with ⟨b', hsized⟩ | ⟨e, hmissized⟩
  · rw [sizeBounds_of_sized hsized] at h
    exact Except.ok.inj h ▸ hsized
  · simp [sizeBounds_of_missized hmissized] at h

theorem sizeBounds_eq_error_iff {e : Error} : sizeBounds s = .error e ↔ s.Missized e := by
  refine ⟨fun h ↦ ?_, sizeBounds_of_missized⟩
  rcases sized_or_missized s with ⟨b, hsized⟩ | ⟨e', hmissized⟩
  · simp [sizeBounds_of_sized hsized] at h
  · rw [sizeBounds_of_missized hmissized] at h
    exact Except.error.inj h ▸ hmissized

/-! ### Listings -/

variable {selectors : List Selector} {listing : List ScaleSet} {e : Error}

/-- The error of the first selected scale set whose tags state no bounds. -/
def Refused (selectors : List Selector) (listing : List ScaleSet) (e : Error) : Prop :=
  ∃ before s after, listing = before ++ s :: after ∧ s.SelectedBy selectors ∧ s.Missized e ∧
    ∀ x ∈ before, x.SelectedBy selectors → ∃ b, x.Sized b

theorem candidate_eq_ok_iff {c : Candidate} :
    candidate s = .ok c ↔ c.name = s.name ∧ s.Sized c.bounds := by
  unfold candidate
  rw [map_eq_ok_iff]
  simp only [sizeBounds_eq_ok_iff]
  constructor
  · rintro ⟨b, hsized, rfl⟩
    exact ⟨rfl, hsized⟩
  · rintro ⟨hname, hsized⟩
    exact ⟨c.bounds, hsized, by rw [← hname]⟩

theorem candidate_eq_error_iff : candidate s = .error e ↔ s.Missized e := by
  unfold candidate
  rw [map_eq_error_iff, sizeBounds_eq_error_iff]

theorem selectedCandidates_eq_error_iff :
    selectedCandidates selectors listing = .error e ↔ Refused selectors listing e := by
  unfold selectedCandidates Refused
  rw [mapM_eq_error_iff]
  simp only [candidate_eq_error_iff, candidate_eq_ok_iff]
  constructor
  · rintro ⟨before, s, after, hsplit, hs, hbefore⟩
    obtain ⟨first, rest, rfl, rfl, hrest⟩ := List.filter_eq_append_iff.mp hsplit
    obtain ⟨skipped, later, rfl, hskipped, hselected, rfl⟩ := List.filter_eq_cons_iff.mp hrest
    refine ⟨first ++ skipped, s, later, by simp, isSelected_iff.mp hselected, hs, ?_⟩
    intro x hx hselectedBy
    rcases List.mem_append.mp hx with hfirst | hskip
    · obtain ⟨c, -, hsized⟩ :=
        hbefore x (List.mem_filter.mpr ⟨hfirst, isSelected_iff.mpr hselectedBy⟩)
      exact ⟨c.bounds, hsized⟩
    · exact absurd (isSelected_iff.mpr hselectedBy) (hskipped x hskip)
  · rintro ⟨before, s, after, rfl, hselected, hs, hbefore⟩
    refine ⟨before.filter (isSelected selectors), s, after.filter (isSelected selectors), ?_, hs,
      ?_⟩
    · rw [List.filter_append, List.filter_cons_of_pos (isSelected_iff.mpr hselected)]
    · intro x hx
      obtain ⟨hmem, hselectedBy⟩ := List.mem_filter.mp hx
      obtain ⟨b, hsized⟩ := hbefore x hmem (isSelected_iff.mp hselectedBy)
      exact ⟨⟨x.name, b⟩, rfl, hsized⟩

theorem Refused.exists_unsized (h : Refused selectors listing e) :
    ¬ ∀ s ∈ listing, s.SelectedBy selectors → ∃ b, s.Sized b := by
  intro hall
  obtain ⟨before, s, after, rfl, hselected, hmissized, -⟩ := h
  obtain ⟨b, hsized⟩ := hall s (by simp) hselected
  simpa [sizeBounds_of_sized hsized] using sizeBounds_of_missized hmissized

/-- Candidates come from the selected scale sets, one from each. -/
theorem sized_selectedCandidates {candidates : List Candidate}
    (h : selectedCandidates selectors listing = .ok candidates) :
    List.Forall₂ (fun s c ↦ c.name = s.name ∧ s.Sized c.bounds)
      (listing.filter fun s ↦ s.SelectedBy selectors) candidates := by
  rw [← filter_isSelected]
  exact (forall₂_of_mapM h).imp fun s c hc ↦ candidate_eq_ok_iff.mp hc

theorem forall_sized_of_selectedCandidates {candidates : List Candidate}
    (h : selectedCandidates selectors listing = .ok candidates) :
    ∀ s ∈ listing, s.SelectedBy selectors → ∃ b, s.Sized b := by
  have hpairs := (sized_selectedCandidates h).imp fun s c hc ↦
    And.intro (Exists.intro c.bounds hc.2) hc
  have hall := ((List.forall₂_and_left _ _).mp hpairs).1
  exact fun s hs hselected ↦ hall s (List.mem_filter.mpr ⟨hs, decide_eq_true hselected⟩)

end NodeFleet
