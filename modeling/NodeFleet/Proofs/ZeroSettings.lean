import NodeFleet.Proofs.Resolution
/-!
Zeros among resolved limits. A zero stands for a setting that was left out, but a variable may say
one all the same: it is taken over like any other value, and goes on from there to the write
settings and the categories. No zero is left otherwise.
-/

set_option autoImplicit false
set_option relaxedAutoImplicit false

namespace NodeFleet.Quota

open NodeFleet.Number

namespace Setting

variable {env : Environment} {s top : Settings} {x : Setting}

/-- Whether the variable of a setting says what reads as a zero. -/
def GivesZero (env : Environment) (x : Setting) : Prop :=
  ∃ v, x.value? env = some v ∧ x.Unset v

/-- The setting whose resolved value another one falls back on. -/
def source? : Setting → Option Setting
  | qpsWrite => some qps
  | bucketWrite => some bucket
  | _ => none

theorem unset_fallback_iff :
    x.Unset (x.fallback top) ↔ ∃ y, x.source? = some y ∧ y.Unset (y.of top) := by
  have hqps : ¬ qps.Unset defaultQps := by decide +kernel
  have hbucket : ¬ bucket.Unset defaultBucket := by decide
  cases x with
  | qps => exact iff_of_false hqps (by simp [source?])
  | bucket => exact iff_of_false hbucket (by simp [source?])
  | qpsWrite => exact ⟨fun h ↦ ⟨qps, rfl, h⟩, by rintro ⟨y, hy, h⟩; cases hy; exact h⟩
  | bucketWrite => exact ⟨fun h ↦ ⟨bucket, rfl, h⟩, by rintro ⟨y, hy, h⟩; cases hy; exact h⟩

theorem unset_resolved_iff :
    x.Unset (x.resolved env s top) ↔ x.Unset (x.of s) ∧
      (x.GivesZero env ∨ x.value? env = none ∧ x.Unset (x.fallback top)) := by
  unfold resolved GivesZero
  by_cases hunset : x.Unset (x.of s)
  · rw [if_pos hunset]
    cases x.value? env with
    | none => simp [hunset]
    | some v => simp [hunset]
  · rw [if_neg hunset]
    exact iff_of_false hunset fun h ↦ hunset h.1

end Setting

namespace Limits

variable {env : Environment} {l l' : Limits}

/-- Where zeros are left among the limits `l'` to which `l` is resolved. -/
structure ZerosLeft (env : Environment) (l l' : Limits) : Prop where
  /-- At the top level: where a variable gives one, or a write setting without variable falls
  back on one. -/
  top : ∀ x : Setting, x.Unset (x.of l'.defaults) ↔ x.Unset (x.of l.defaults) ∧
    (x.GivesZero env ∨
      x.value? env = none ∧ ∃ y, x.source? = some y ∧ y.Unset (y.of l'.defaults))
  /-- In a category: where it has no value of its own and the top level has a zero. -/
  category : ∀ (c : Category) (x : Setting), x.Unset (x.of (l'.forCategory c)) ↔
    x.Unset (x.of l'.defaults) ∧ ∀ own, l.overrides c = some own → x.Unset (x.of own)
  /-- Nowhere just when no variable that is consulted gives one. -/
  nowhere : (∀ x : Setting, ¬ x.Unset (x.of l'.defaults) ∧
      ∀ c, ¬ x.Unset (x.of (l'.forCategory c))) ↔
    ∀ x : Setting, x.Unset (x.of l.defaults) → ¬ x.GivesZero env

theorem Resolved.top_unset_iff (h : Resolved env l l') (x : Setting) :
    x.Unset (x.of l'.defaults) ↔ x.Unset (x.of l.defaults) ∧
      (x.GivesZero env ∨
        x.value? env = none ∧ ∃ y, x.source? = some y ∧ y.Unset (y.of l'.defaults)) := by
  have hresolved : x.of l'.defaults = x.resolved env l.defaults l'.defaults := h.top x
  rw [← Setting.unset_fallback_iff, ← Setting.unset_resolved_iff, ← hresolved]

theorem Resolved.category_unset_iff (h : Resolved env l l') (c : Category) (x : Setting) :
    x.Unset (x.of (l'.forCategory c)) ↔
      x.Unset (x.of l'.defaults) ∧ ∀ own, l.overrides c = some own → x.Unset (x.of own) := by
  unfold forCategory
  cases hc : l.overrides c with
  | none =>
    rw [h.absent c hc]
    simp
  | some own =>
    obtain ⟨s, hs, -, hown⟩ := h.present c own hc
    rw [hs, Option.getD_some, hown x]
    by_cases hunset : x.Unset (x.of own)
    · simp [hunset]
    · simp [hunset]

/-- Write settings fall back on read settings and those on nothing that is zero, so a variable is at
the bottom of every zero. -/
theorem Resolved.exists_givesZero (h : Resolved env l l') {x : Setting}
    (hx : x.Unset (x.of l'.defaults)) :
    ∃ y : Setting, y.Unset (y.of l.defaults) ∧ y.GivesZero env := by
  obtain ⟨hunset, hgiven | ⟨-, y, hy, hzero⟩⟩ := (h.top_unset_iff x).mp hx
  · exact ⟨x, hunset, hgiven⟩
  · obtain ⟨hunset', hgiven | ⟨-, z, hz, -⟩⟩ := (h.top_unset_iff y).mp hzero
    · exact ⟨y, hunset', hgiven⟩
    · cases x <;> cases hy <;> cases hz

/-- Resolved limits hold a zero just where a variable that is consulted gives one, or takes one over
from there. -/
theorem zeros_after (h : l.resolve env = (l', none)) : ZerosLeft env l l' := by
  have hresolved := resolved_of_resolve h
  refine ⟨hresolved.top_unset_iff, hresolved.category_unset_iff, ?_, ?_⟩
  · intro hnowhere x hunset hgiven
    exact (hnowhere x).1 ((hresolved.top_unset_iff x).mpr ⟨hunset, Or.inl hgiven⟩)
  · intro hgives x
    have htop : ¬ x.Unset (x.of l'.defaults) := by
      intro hzero
      obtain ⟨y, hunset, hgiven⟩ := hresolved.exists_givesZero hzero
      exact hgives y hunset hgiven
    exact ⟨htop, fun c hzero ↦ htop ((hresolved.category_unset_iff c x).mp hzero).1⟩

/-- An environment that sets the read rate to zero. -/
def zeroRate : Environment :=
  fun name ↦ if name = readQpsVariable then some "0" else none

theorem zeros_after_zeroRate :
    unset.resolve zeroRate = ((unset.resolve zeroRate).1, none) ∧
      ZerosLeft zeroRate unset (unset.resolve zeroRate).1 := by
  have hresolve : unset.resolve zeroRate = ((unset.resolve zeroRate).1, none) := rfl
  exact ⟨hresolve, zeros_after hresolve⟩

/-- The zero that a variable says is left in the end, in read and write rates and in categories. -/
theorem zero_of_zeroRate :
    (unset.resolve zeroRate).2 = none ∧
      ¬ ∀ x : Setting, ¬ x.Unset (x.of (unset.resolve zeroRate).1.defaults) ∧
        ∀ c, ¬ x.Unset (x.of ((unset.resolve zeroRate).1.forCategory c)) := by
  refine ⟨rfl, fun h ↦ ?_⟩
  have hzero : Setting.qps.Unset ((unset.resolve zeroRate).1.defaults.qps) := by
    decide +kernel
  exact (h .qps).1 hzero

end Limits

end NodeFleet.Quota
