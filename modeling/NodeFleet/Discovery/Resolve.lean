import NodeFleet.Cloud.Basic
import NodeFleet.NodeGroup
import NodeFleet.Spec.Discovery
/-!
Which node groups a listing of scale sets gives: those that explicit specs name, and those whose
tags a selector matches, with the bounds that their tags state.
-/

set_option autoImplicit false
set_option relaxedAutoImplicit false

namespace NodeFleet.Discovery

open NodeFleet.Number

def minTag : String := "min"

def maxTag : String := "max"

/-- A group that is to be, before it has a handle. -/
structure Candidate where
  name : String
  bounds : Bounds
  deriving DecidableEq, Repr

def isListed (listing : List ScaleSet) (name : String) : Bool :=
  listing.any fun s ↦ Text.SameName s.name name

/-- The specs whose scale set is listed under some spelling. -/
def explicitCandidates (specs : List ExplicitSpec) (listing : List ScaleSet) : List Candidate :=
  (specs.filter fun spec ↦ isListed listing spec.name).map fun spec ↦
    ⟨spec.name, ⟨spec.min, spec.max⟩⟩

def minSize (s : ScaleSet) : Except Error Int :=
  match s.tags.get? minTag with
  | none => .error (.missingMinimumSize s.name)
  | some text =>
    match readInt maxSigned64 text.toList with
    | .error fault => .error (.invalidMinimumSize s.name fault)
    | .ok n => if n < 0 then .error (.negativeMinimumSize s.name n) else .ok n

def maxSize (s : ScaleSet) (min : Int) : Except Error Int :=
  match s.tags.get? maxTag with
  | none => .error (.missingMaximumSize s.name)
  | some text =>
    match readInt maxSigned64 text.toList with
    | .error fault => .error (.invalidMaximumSize s.name fault)
    | .ok n => if n ≤ min then .error (.maximumNotGreaterThanMinimum s.name min n) else .ok n

/-- The bounds in the size tags, or the first check that they fail. -/
def sizeBounds (s : ScaleSet) : Except Error Bounds :=
  match minSize s with
  | .error e => .error e
  | .ok min =>
    match maxSize s min with
    | .error e => .error e
    | .ok max => .ok ⟨min.toNat, max.toNat⟩

theorem nonneg_of_minSize {s : ScaleSet} {n : Int} (h : minSize s = .ok n) : 0 ≤ n := by
  unfold minSize at h
  repeat' split at h
  all_goals cases h
  omega

theorem lt_of_maxSize {s : ScaleSet} {min n : Int} (h : maxSize s min = .ok n) : min < n := by
  unfold maxSize at h
  repeat' split at h
  all_goals cases h
  omega

theorem lt_of_sizeBounds {s : ScaleSet} {b : Bounds} (h : sizeBounds s = .ok b) :
    b.min < b.max := by
  unfold sizeBounds at h
  cases hmin : minSize s with
  | error e =>
    rw [hmin] at h
    cases h
  | ok min =>
    cases hmax : maxSize s min with
    | error e =>
      rw [hmin] at h
      dsimp only at h
      rw [hmax] at h
      cases h
    | ok max =>
      rw [hmin] at h
      dsimp only at h
      rw [hmax] at h
      cases h
      have hnonneg := nonneg_of_minSize hmin
      have hlt := lt_of_maxSize hmax
      dsimp only
      omega

def isSelected (selectors : List Selector) (s : ScaleSet) : Bool :=
  selectors.any fun selector ↦ selector.matchesTags s.tags

def candidate (s : ScaleSet) : Except Error Candidate :=
  (sizeBounds s).map fun bounds ↦ ⟨s.name, bounds⟩

/-- One candidate for each selected scale set; a single one with bad size tags fails them all. -/
def selectedCandidates (selectors : List Selector) (listing : List ScaleSet) :
    Except Error (List Candidate) :=
  (listing.filter (isSelected selectors)).mapM candidate

end NodeFleet.Discovery
