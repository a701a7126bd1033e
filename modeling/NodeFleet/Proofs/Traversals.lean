import Mathlib.Data.List.Forall2
/-!
Lists whose elements are all taken by a function that may fail. The elements come to results one by
one if none of them fails; otherwise the list fails as its first element that does.
-/

set_option autoImplicit false
set_option relaxedAutoImplicit false

namespace NodeFleet

variable {α β ε : Type} {g : α → Except ε β} {l : List α}

theorem forall₂_of_mapM {l' : List β} (h : l.mapM g = .ok l') :
    List.Forall₂ (fun x y ↦ g x = .ok y) l l' := by
  induction l generalizing l' with
  | nil =>
    obtain rfl := Except.ok.inj h
    exact .nil
  | cons x rest ih =>
    rw [List.mapM_cons] at h
    cases hx : g x with
    | error e =>
      rw [hx] at h
      cases h
    | ok y =>
      cases hrest : rest.mapM g with
      | error e =>
        rw [hx, hrest] at h
        cases h
      | ok ys =>
        rw [hx, hrest] at h
        obtain rfl := Except.ok.inj h
        exact .cons hx (ih hrest)

theorem mapM_eq_error {x : α} (hx : x ∈ l) {fault : ε} (hfault : g x = .error fault) :
    ∃ e, l.mapM g = .error e := by
  induction l with
  | nil => cases hx
  | cons y rest ih =>
    rw [List.mapM_cons]
    cases hy : g y with
    | error e => exact ⟨e, rfl⟩
    | ok b =>
      rcases List.mem_cons.mp hx with rfl | hrest
      · rw [hy] at hfault
        simp at hfault
      · obtain ⟨e, he⟩ := ih hrest
        rw [he]
        exact ⟨e, rfl⟩

/-- The first element that fails is the one that fails the list. -/
theorem mapM_eq_error_iff {e : ε} :
    l.mapM g = .error e ↔ ∃ before x after, l = before ++ x :: after ∧ g x = .error e ∧
      ∀ y ∈ before, ∃ z, g y = .ok z := by
  induction l with
  | nil => simp [pure, Except.pure]
  | cons x rest ih =>
    rw [List.mapM_cons]
    constructor
    · intro h
      cases hx : g x with
      | error e' =>
        rw [hx] at h
        obtain rfl := Except.error.inj h
        exact ⟨[], x, rest, rfl, hx, by simp⟩
      | ok z =>
        cases hrest : rest.mapM g with
        | ok zs =>
          rw [hx, hrest] at h
          cases h
        | error e' =>
          rw [hx, hrest] at h
          obtain rfl := Except.error.inj h
          obtain ⟨before, y, after, rfl, hy, hbefore⟩ := ih.mp hrest
          refine ⟨x :: before, y, after, rfl, hy, ?_⟩
          exact List.forall_mem_cons.mpr ⟨⟨z, hx⟩, hbefore⟩
    · rintro ⟨before, y, after, heq, hy, hbefore⟩
      cases before with
      | nil =>
        obtain ⟨rfl, rfl⟩ := List.cons.inj heq
        rw [hy]
        rfl
      | cons first before =>
        obtain ⟨rfl, rfl⟩ := List.cons.inj heq
        obtain ⟨⟨z, hx⟩, hbefore⟩ := List.forall_mem_cons.mp hbefore
        rw [hx, ih.mpr ⟨before, y, after, rfl, hy, hbefore⟩]
        rfl

end NodeFleet
