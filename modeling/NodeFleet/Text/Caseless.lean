/-!
Names compared without regard to the case of ASCII letters. Two names are the same exactly when
their lower-case forms are equal, so sameness is an equivalence.
-/

set_option autoImplicit false
set_option relaxedAutoImplicit false

namespace NodeFleet.Text

/-- The text with `A` to `Z` made small; every other character stays. -/
def lower (s : String) : String :=
  .ofList (s.toList.map Char.toLower)

abbrev SameName (a b : String) : Prop :=
  lower a = lower b

theorem toLower_toLower (c : Char) : c.toLower.toLower = c.toLower := by
  unfold Char.toLower
  grind

@[simp]
theorem lower_lower (s : String) : lower (lower s) = lower s := by
  unfold lower
  rw [String.toList_ofList, List.map_map]
  exact congrArg String.ofList (List.map_congr_left fun c _ ↦ toLower_toLower c)

end NodeFleet.Text
