import NodeFleet.Proofs.Resolution
/-!
Resolutions done again. Limits that are resolved are left as they are in the same environment; and a
resolution that fails half way has done nothing that one from the start would not do once the
variables at fault are mended, so it can be taken up where it failed.
-/

set_option autoImplicit false
set_option relaxedAutoImplicit false

namespace NodeFleet.Quota

open NodeFleet.Number

/-- Whether an environment says the same as another wherever that can be read, and may differ only
where it cannot. -/
def Environment.Mends (env' env : Environment) : Prop :=
  ∀ x : Setting, (∀ text fault, ¬ x.Malformed env text fault) →
    env' x.variableName = env x.variableName

theorem Environment.Mends.refl (env : Environment) : env.Mends env :=
  fun _ _ ↦ rfl

namespace Settings

variable {env env' : Environment} {s t : Settings} {x : Setting}

/-- A setting that is not at fault is filled alike in a mended environment. -/
theorem fillSetting_of_mends (h : env'.Mends env) (hx : ¬ x.Faulty env s) :
    fillSetting env' x s = fillSetting env x s := by
  rw [fillSetting_eq, fillSetting_eq]
  by_cases hunset : x.Unset (x.of s)
  · have hreadable : ∀ text fault, ¬ x.Malformed env text fault :=
      fun text fault hmalformed ↦ hx ⟨hunset, text, fault, hmalformed⟩
    unfold given?
    rw [h x hreadable]
  · rw [if_neg hunset, if_neg hunset]

/-- Steps that all succeed do so alike in a mended environment. -/
theorem fillWith_of_mends (h : env'.Mends env) {xs : List Setting}
    (hxs : s.fillWith (xs.map (fillSetting env)) = (t, none)) :
    s.fillWith (xs.map (fillSetting env')) = (t, none) := by
  induction xs generalizing s with
  | nil => exact hxs
  | cons x rest ih =>
    rw [List.map_cons, fillWith_cons] at hxs ⊢
    cases hstep : fillSetting env x s with
    | error e =>
      rw [hstep] at hxs
      cases hxs
    | ok next =>
      rw [hstep] at hxs
      rw [fillSetting_of_mends h (fillSetting_eq_ok_iff.mp hstep).1, hstep]
      exact ih hxs

namespace Filled

variable {filled : List Setting}

theorem not_faulty (h : s.Filled env filled t) (hx : x ∈ filled) : ¬ x.Faulty env t := by
  rintro ⟨hunset, hmalformed⟩
  rw [h.resolved x hx] at hunset
  exact h.readable x hx ⟨x.unset_of_resolved hunset, hmalformed⟩

/-- What is filled once is filled. -/
theorem fillSetting (h : s.Filled env filled t) (hx : x ∈ filled) (hmends : env'.Mends env) :
    Settings.fillSetting env' x t = .ok t := by
  have hagain : x.resolved env t t = x.of t := by
    have hfirst := h.resolved x hx
    unfold Setting.resolved at hfirst ⊢
    by_cases hunset : x.Unset (x.of s)
    · rw [if_pos hunset] at hfirst
      rw [← hfirst, ite_self]
    · rw [if_neg hunset] at hfirst
      rw [hfirst, if_neg hunset]
  have hreadable := h.not_faulty hx
  rw [fillSetting_of_mends hmends hreadable]
  refine fillSetting_eq_ok_iff.mpr ⟨hreadable, ?_⟩
  rw [hagain, Setting.set_of]

theorem fillWith (h : s.Filled env filled t) (hmends : env'.Mends env) {xs : List Setting}
    (hxs : xs ⊆ filled) : t.fillWith (xs.map (Settings.fillSetting env')) = (t, none) := by
  induction xs with
  | nil => rfl
  | cons x rest ih =>
    rw [List.map_cons, fillWith_cons, h.fillSetting (hxs List.mem_cons_self) hmends]
    exact ih fun y hy ↦ hxs (List.mem_cons_of_mem x hy)

end Filled

/-- A fill that failed goes on in a mended environment as one from the start does. -/
theorem fill_of_mends {e : Error} (h : s.fill env = (t, some e)) (hmends : env'.Mends env) :
    t.fill env' = s.fill env' := by
  obtain ⟨before, x, after, hall, hbefore, -⟩ := fill_eq_error h
  have hfilled := filled_of_fillWith hall hbefore
  rw [fill_eq, fill_eq, hall, List.map_append, fillWith_append, fillWith_append,
    fillWith_of_mends hmends hbefore, hfilled.fillWith hmends (List.Subset.refl before)]

/-! ### Categories -/

theorem inherit_self (top : Settings) : top.inherit top = top := by
  refine Setting.eq_of_of_eq rfl fun x ↦ ?_
  rw [of_inherit, ite_self]

theorem inherit_inherit (top s : Settings) : top.inherit (top.inherit s) = top.inherit s := by
  refine Setting.eq_of_of_eq rfl fun x ↦ ?_
  rw [of_inherit top (top.inherit s), of_inherit top s]
  by_cases hunset : x.Unset (x.of s)
  · rw [if_pos hunset, ite_self]
  · rw [if_neg hunset, if_neg hunset]

end Settings

namespace Limits

variable {env : Environment} {l l' : Limits}

/-- Limits that have been resolved stay as they are when they are resolved again. -/
theorem resolve_resolved (h : l.resolve env = (l', none)) : l'.resolve env = (l', none) := by
  rcases l.resolve_eq env with ⟨top, e, -, hresolve⟩ | ⟨top, hfill, hresolve⟩
  · rw [hresolve] at h
    cases h
  · obtain ⟨rfl, -⟩ := Prod.mk.inj (hresolve.symm.trans h)
    have hagain : top.fill env = (top, none) :=
      (Settings.filled_of_fill hfill).fillWith (.refl env) (List.Subset.refl _)
    have hcategory : ∀ c, top.inherit ((l.overrides c).elim top top.inherit) =
        (l.overrides c).elim top top.inherit := by
      intro c
      cases l.overrides c with
      | none => exact top.inherit_self
      | some own => exact top.inherit_inherit own
    unfold resolve
    rw [hagain]
    dsimp only [Option.elim_some]
    simp only [hcategory]

/-- What a failed resolution leaves: its categories are untouched, and going on from there in any
mended environment comes to the same as starting afresh. -/
structure Resumable (env : Environment) (l l' : Limits) : Prop where
  overrides : l'.overrides = l.overrides
  resume : ∀ env' : Environment, env'.Mends env → l'.resolve env' = l.resolve env'

theorem resumable_of_resolve {e : Error} (h : l.resolve env = (l', some e)) :
    Resumable env l l' := by
  rcases l.resolve_eq env with ⟨top, cause, hfill, hresolve⟩ | ⟨top, -, hresolve⟩
  · obtain ⟨rfl, -⟩ := Prod.mk.inj (hresolve.symm.trans h)
    refine ⟨rfl, fun env' hmends ↦ ?_⟩
    have hsame := Settings.fill_of_mends hfill hmends
    unfold resolve
    dsimp only
    rw [hsame]
  · rw [hresolve] at h
    cases h

/-- A resolution can be done again: one that succeeded changes nothing more, and one that failed has
changed nothing that the next one would have to undo. -/
theorem repeatable (env : Environment) (l : Limits) :
    ((l.resolve env).2 = none →
      (l.resolve env).1.resolve env = ((l.resolve env).1, none)) ∧
    ∀ e, (l.resolve env).2 = some e → Resumable env l (l.resolve env).1 :=
  ⟨fun h ↦ resolve_resolved (Prod.ext rfl h), fun _ h ↦ resumable_of_resolve (Prod.ext rfl h)⟩

/-- A read rate of zero, and a burst that is a number or not. -/
def saying (burst : String) : Environment := fun name ↦
  if name = readQpsVariable then some "-0"
  else if name = readBucketsVariable then some burst
  else none

theorem repeatable_saying :
    (unset.resolve (saying "ten")).2.isSome = true ∧
      Resumable (saying "ten") unset (unset.resolve (saying "ten")).1 ∧
      (saying "10").Mends (saying "ten") ∧
      ((unset.resolve (saying "ten")).1.resolve (saying "10")).1.defaults =
        ⟨false, ⟨true, 0⟩, 10, ⟨true, 0⟩, 10⟩ := by
  have hfails : (unset.resolve (saying "ten")).2.isSome = true := by decide +kernel
  obtain ⟨e, he⟩ := Option.isSome_iff_exists.mp hfails
  refine ⟨hfails, (repeatable (saying "ten") unset).2 e he, ?_, by decide +kernel⟩
  intro x hreadable
  cases x with
  | bucket => exact absurd ⟨rfl, rfl⟩ (hreadable "ten" (.integer .invalidDigit))
  | _ => rfl

end Limits

end NodeFleet.Quota
