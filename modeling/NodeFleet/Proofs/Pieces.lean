import Mathlib.Data.List.TakeWhile
import NodeFleet.Text.Blank
import NodeFleet.Text.Fields
/-!
Texts in pieces. The fields of a text are the only pieces without the mark that make the text when
it is put between them; a cut is at the first mark; and trimming leaves the one part of a text that
has nothing but blank space around it and none at its own ends.
-/

set_option autoImplicit false
set_option relaxedAutoImplicit false

namespace NodeFleet.Text

variable {mark : Char} {s t before after : List Char} {pieces : List (List Char)}

/-! ### Fields -/

/-- Whether the text consists of the pieces, with marks between them and nowhere else. -/
structure Pieces (mark : Char) (s : List Char) (pieces : List (List Char)) : Prop where
  nonempty : pieces ≠ []
  unmarked : ∀ piece ∈ pieces, mark ∉ piece
  joined : [mark].intercalate pieces = s

theorem fields_eq_splitOn (mark : Char) (s : List Char) : fields mark s = s.splitOn mark := by
  induction s with
  | nil => rfl
  | cons c rest ih =>
    rw [List.splitOn_cons_eq_if_modifyHead, ← ih]
    by_cases hc : c = mark
    · simp [fields, hc]
    · obtain ⟨piece, pieces, hrest, hcons⟩ := fields_of_ne hc rest
      simp [hcons, hrest, hc]

theorem notMem_of_mem_fields {piece : List Char} (h : piece ∈ fields mark s) : mark ∉ piece := by
  induction s generalizing piece with
  | nil =>
    obtain rfl := List.mem_singleton.mp h
    exact List.not_mem_nil
  | cons c rest ih =>
    by_cases hc : c = mark
    · rw [fields, if_pos hc] at h
      rcases List.mem_cons.mp h with rfl | hrest
      · exact List.not_mem_nil
      · exact ih hrest
    · obtain ⟨first, pieces, hfields, hcons⟩ := fields_of_ne hc rest
      rw [hcons] at h
      rw [hfields] at ih
      rcases List.mem_cons.mp h with rfl | hlater
      · rw [List.mem_cons, not_or]
        exact ⟨fun hmark ↦ hc hmark.symm, ih List.mem_cons_self⟩
      · exact ih (List.mem_cons_of_mem first hlater)

theorem pieces_fields (mark : Char) (s : List Char) : Pieces mark s (fields mark s) where
  nonempty := fields_ne_nil mark s
  unmarked _ hpiece := notMem_of_mem_fields hpiece
  joined := by
    rw [fields_eq_splitOn]
    exact List.intercalate_splitOn mark

/-- No other pieces make the text. -/
theorem fields_eq_iff : fields mark s = pieces ↔ Pieces mark s pieces := by
  constructor
  · rintro rfl
    exact pieces_fields mark s
  · rintro ⟨hnonempty, hunmarked, rfl⟩
    rw [fields_eq_splitOn]
    exact List.splitOn_intercalate mark hunmarked hnonempty

/-! ### Cuts -/

theorem cut?_eq_some_iff :
    cut? mark s = some (before, after) ↔ s = before ++ mark :: after ∧ mark ∉ before := by
  induction s generalizing before with
  | nil => simp [cut?]
  | cons c rest ih =>
    rw [cut?]
    by_cases hc : c = mark
    · obtain rfl := hc
      cases before with
      | nil => simp [eq_comm]
      | cons first others =>
        simp only [if_true, Option.some.injEq, Prod.mk.injEq, List.cons_append, List.cons.injEq,
          List.mem_cons]
        grind
    · cases before with
      | nil => simp [hc]
      | cons first others =>
        simp only [hc, if_false, Option.map_eq_some_iff, Prod.mk.injEq, List.cons.injEq,
          List.cons_append, List.mem_cons, Prod.exists]
        grind

/-! ### Blank space -/

/-- Whether the text neither begins nor ends with a blank character. -/
structure Tight (t : List Char) : Prop where
  first : ∀ c, t.head? = some c → isBlank c = false
  last : ∀ c, t.getLast? = some c → isBlank c = false

/-- Whether `t` is what is left of `s` without the blank characters on both sides. -/
structure Trims (s t : List Char) : Prop where
  tight : Tight t
  around : ∃ left right, s = left ++ t ++ right ∧ (∀ c ∈ left, isBlank c = true) ∧
    ∀ c ∈ right, isBlank c = true

theorem trimLeft_append (hblank : ∀ c ∈ before, isBlank c = true)
    (hfirst : ∀ c, t.head? = some c → isBlank c = false) (ht : t ≠ []) :
    trimLeft (before ++ t ++ after) = t ++ after := by
  obtain ⟨c, rest, rfl⟩ := List.exists_cons_of_ne_nil ht
  have hc : isBlank c = false := hfirst c rfl
  unfold trimLeft
  rw [List.append_assoc, List.dropWhile_append, List.dropWhile_eq_nil_iff.mpr hblank]
  simp [hc]

theorem trimLeft_eq_nil (hblank : ∀ c ∈ s, isBlank c = true) : trimLeft s = [] :=
  List.dropWhile_eq_nil_iff.mpr hblank

theorem trim_of_trims (h : Trims s t) : trim s = t := by
  obtain ⟨⟨hfirst, hlast⟩, left, right, rfl, hleft, hright⟩ := h
  have hreversed : ∀ c ∈ right.reverse, isBlank c = true := fun c hc ↦
    hright c (List.mem_reverse.mp hc)
  unfold trim
  by_cases ht : t = []
  · obtain rfl := ht
    have hblank : ∀ c ∈ left ++ [] ++ right, isBlank c = true := by
      intro c hc
      rw [List.append_nil, List.mem_append] at hc
      exact hc.elim (hleft c) (hright c)
    rw [trimLeft_eq_nil hblank]
    rfl
  · rw [trimLeft_append hleft hfirst ht, List.reverse_append]
    have hend : trimLeft (right.reverse ++ t.reverse ++ []) = t.reverse ++ [] :=
      trimLeft_append hreversed (by simpa [List.head?_reverse] using hlast) (by simpa using ht)
    rw [List.append_nil, List.append_nil] at hend
    rw [hend, List.reverse_reverse]

/-- A text is a blank part and what is left without it, which begins with no blank character. -/
theorem exists_trimLeft (s : List Char) :
    ∃ left, s = left ++ trimLeft s ∧ (∀ c ∈ left, isBlank c = true) ∧
      ∀ c, (trimLeft s).head? = some c → isBlank c = false := by
  refine ⟨s.takeWhile isBlank, List.takeWhile_append_dropWhile.symm, fun c hc ↦ ?_, fun c hc ↦ ?_⟩
  · exact List.mem_takeWhile_imp hc
  · have hnot := List.head?_dropWhile_not isBlank s
    unfold trimLeft at hc
    rw [hc] at hnot
    exact hnot

theorem trims_trim (s : List Char) : Trims s (trim s) := by
  obtain ⟨left, hs, hleft, hfirst⟩ := exists_trimLeft s
  obtain ⟨right, hrest, hright, hlast⟩ := exists_trimLeft (trimLeft s).reverse
  have hback : trimLeft s = trim s ++ right.reverse := by
    have h := congrArg List.reverse hrest
    rw [List.reverse_reverse, List.reverse_append] at h
    exact h
  refine ⟨⟨fun c hc ↦ ?_, fun c hc ↦ ?_⟩, left, right.reverse, ?_, hleft, fun c hc ↦ ?_⟩
  · refine hfirst c ?_
    rw [hback, List.head?_append, hc]
    rfl
  · refine hlast c ?_
    unfold trim at hc
    rw [List.getLast?_reverse] at hc
    exact hc
  · rw [List.append_assoc, ← hback]
    exact hs
  · exact hright c (List.mem_reverse.mp hc)

theorem trim_eq_iff : trim s = t ↔ Trims s t := by
  constructor
  · rintro rfl
    exact trims_trim s
  · exact trim_of_trims

theorem Tight.trims (h : Tight t) : Trims t t :=
  ⟨h, [], [], by simp, by simp, by simp⟩

theorem Tight.exists_unblank (h : Tight t) (ht : t ≠ []) : ∃ c ∈ t, isBlank c = false := by
  obtain ⟨c, rest, rfl⟩ := List.exists_cons_of_ne_nil ht
  exact ⟨c, List.mem_cons_self, h.first c rfl⟩

/-- Something is left of a text just if not all of it is blank. -/
theorem Trims.ne_nil_iff (h : Trims s t) : t ≠ [] ↔ ∃ c ∈ s, isBlank c = false := by
  obtain ⟨htight, left, right, rfl, hleft, hright⟩ := h
  constructor
  · intro ht
    obtain ⟨c, hc, hunblank⟩ := htight.exists_unblank ht
    exact ⟨c, by simp [hc], hunblank⟩
  · rintro ⟨c, hc, hunblank⟩ rfl
    rw [List.append_nil, List.mem_append] at hc
    rcases hc with hc | hc
    · rw [hleft c hc] at hunblank
      cases hunblank
    · rw [hright c hc] at hunblank
      cases hunblank

end NodeFleet.Text
