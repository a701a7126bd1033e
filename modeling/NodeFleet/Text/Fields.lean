/-!
Texts cut at a separator. `fields` keeps every piece, also empty ones, and joining the pieces with
the separator gives the text back; `cut?` divides a text at the first separator.
-/

set_option autoImplicit false
set_option relaxedAutoImplicit false

namespace NodeFleet.Text

/-- The pieces between the separators; a text without one is its own single piece. -/
def fields (mark : Char) : List Char → List (List Char)
  | [] => [[]]
  | c :: rest =>
    if c = mark then [] :: fields mark rest
    else
      match fields mark rest with
      | [] => [[c]]
      | piece :: pieces => (c :: piece) :: pieces

theorem fields_ne_nil (mark : Char) (s : List Char) : fields mark s ≠ [] := by
  cases s with
  | nil => simp [fields]
  | cons c rest =>
    simp only [fields]
    split
    · simp
    · split <;> simp

theorem fields_of_ne {mark c : Char} (h : c ≠ mark) (s : List Char) :
    ∃ piece pieces, fields mark s = piece :: pieces ∧
      fields mark (c :: s) = (c :: piece) :: pieces := by
  match hs : fields mark s with
  | [] => exact absurd hs (fields_ne_nil mark s)
  | piece :: pieces => exact ⟨piece, pieces, rfl, by simp [fields, h, hs]⟩

/-- The part before the first separator and the part after it. -/
def cut? (mark : Char) : List Char → Option (List Char × List Char)
  | [] => none
  | c :: rest =>
    if c = mark then some ([], rest)
    else (cut? mark rest).map fun p ↦ (c :: p.1, p.2)

end NodeFleet.Text
