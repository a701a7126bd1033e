import NodeFleet.Proofs.SizeCells
/-!
Turns of requests for a size. The deeds of a size tell when each request has its turn and what it
comes to. By the protocol of the size, those who wait for a call that fails make a call after it,
and those who wait for one that is answered recall the answer while it is younger than the period.
-/

set_option autoImplicit false
set_option relaxedAutoImplicit false

namespace NodeFleet.Fleet

open NodeFleet.Quota

/-! ### Turns -/

namespace SizeDeed

def moment : SizeDeed → Nat
  | asked _ now => now
  | ended _ now _ => now
  | recalled _ now _ => now

/-- The request that a deed brings to its end, and what it comes to. -/
def served? : SizeDeed → Option (Ticket × Except Error Nat)
  | asked _ _ => none
  | ended t _ result => some (t, result)
  | recalled t _ n => some (t, .ok n)

/-- The request whose turn comes with a deed, and the moment. -/
def turn? : SizeDeed → Option (Ticket × Nat)
  | asked t now => some (t, now)
  | ended _ _ _ => none
  | recalled t now _ => some (t, now)

/-- The requests that have been served, in their order, with what they came to. -/
def served (deeds : List SizeDeed) : List (Ticket × Except Error Nat) :=
  deeds.filterMap served?

def turns (deeds : List SizeDeed) : List (Ticket × Nat) :=
  deeds.filterMap turn?

theorem served_append (first later : List SizeDeed) :
    served (first ++ later) = served first ++ served later :=
  List.filterMap_append

theorem mem_served {t e : Nat} {result : Except Error Nat} {deeds : List SizeDeed}
    (h : .ended t e result ∈ deeds) : (t, result) ∈ served deeds :=
  List.mem_filterMap.mpr ⟨_, h, rfl⟩

theorem mem_turns_iff {t now : Nat} {deeds : List SizeDeed} :
    (t, now) ∈ turns deeds ↔ .asked t now ∈ deeds ∨ ∃ n, .recalled t now n ∈ deeds := by
  constructor
  · intro h
    obtain ⟨d, hd, hturn⟩ := List.mem_filterMap.mp h
    cases d with
    | asked t' now' =>
      cases hturn
      exact Or.inl hd
    | ended t' e result => cases hturn
    | recalled t' now' n =>
      cases hturn
      exact Or.inr ⟨n, hd⟩
  · rintro (h | ⟨n, h⟩)
    · exact List.mem_filterMap.mpr ⟨_, h, rfl⟩
    · exact List.mem_filterMap.mpr ⟨_, h, rfl⟩

end SizeDeed

open SizeDeed

namespace SizeState

variable {period : Duration} {s : SizeState} {deeds before later : List SizeDeed} {t u : Ticket}
  {us more : List Ticket}

/-- A call that is under way is what the last deed has started. -/
theorem Lawful.eq_concat (h : s.Lawful period deeds) (hidle : s.busy = none)
    (hbusy : (s.afterAll deeds).busy = some t) :
    ∃ before now, deeds = before ++ [.asked t now] := by
  rcases List.eq_nil_or_concat' deeds with rfl | ⟨before, d, rfl⟩
  · cases hidle.symm.trans hbusy
  · have hpermits : (s.afterAll before).Permits period d := h.permits
    rw [afterAll_append] at hbusy
    cases d with
    | asked t' now =>
      cases hbusy
      exact ⟨before, now, rfl⟩
    | ended t' e result =>
      cases result with
      | ok n => cases hbusy
      | error fault => cases hbusy
    | recalled t' now n => cases hpermits.1.symm.trans hbusy

/-- While a call is under way, the next thing to happen is its end. -/
theorem Lawful.eq_cons (h : s.Lawful period deeds) (hbusy : s.busy = some t) (hne : deeds ≠ []) :
    ∃ e result rest, deeds = .ended t e result :: rest := by
  cases deeds with
  | nil => exact absurd rfl hne
  | cons d rest =>
    cases d with
    | asked t' now => cases hbusy.symm.trans h.1.1
    | ended t' e result =>
      obtain rfl := Option.some.inj (hbusy.symm.trans h.1.1)
      exact ⟨e, result, rest, rfl⟩
    | recalled t' now n => cases hbusy.symm.trans h.1.1

/-- Whoever has started a call is being served or has been. -/
theorem Lawful.busy_or_served {now : Nat} (h : s.Lawful period deeds) (ht : .asked t now ∈ deeds) :
    (s.afterAll deeds).busy = some t ∨ t ∈ (served deeds).map Prod.fst := by
  obtain ⟨before, later, rfl⟩ := List.append_of_mem ht
  cases later with
  | nil =>
    left
    rw [afterAll_append]
    rfl
  | cons d rest =>
    obtain ⟨e, result, rfl⟩ := h.next
    have hended : .ended t e result ∈ before ++ .asked t now :: .ended t e result :: rest := by simp
    exact Or.inr (List.mem_map_of_mem (mem_served hended))

/-- Whoever starts a call is the next to be served. -/
theorem Lawful.eq_of_asked {now : Nat} {rest : List SizeDeed}
    (h : s.Lawful period (.asked t now :: rest))
    (hserved : (served (.asked t now :: rest)).map Prod.fst = u :: more) : t = u := by
  cases rest with
  | nil => cases hserved
  | cons d later =>
    have hnext : s.Lawful period ([] ++ .asked t now :: d :: later) := h
    obtain ⟨e, result, rfl⟩ := hnext.next
    exact (List.cons.inj hserved).1

/-- What comes after a call that has failed is the next call: an answer that was too old when the
call started is no younger now. -/
theorem Lawful.asked_of_failed {e : Nat} {fault : Error} {d : SizeDeed}
    (h : s.Lawful period (before ++ .ended u e (.error fault) :: d :: later))
    (hidle : s.busy = none) (hmoments : (before ++ .ended u e (.error fault) :: d :: later).Pairwise
      fun d d' ↦ d.moment ≤ d'.moment) : ∃ t now, d = .asked t now := by
  have hended := h.permits
  have hnext : ((s.afterAll before).after (.ended u e (.error fault))).Permits period d :=
    (lawful_append.mp h).2.2.1
  obtain ⟨earlier, a, rfl⟩ := (lawful_append.mp h).1.eq_concat hidle hended.1
  have hearlier := (lawful_append.mp h).1
  have hstale := hearlier.permits.2
  have hsame : (s.afterAll (earlier ++ [.asked u a])).known = (s.afterAll earlier).known := by
    rw [afterAll_append]
    rfl
  cases d with
  | asked t now => exact ⟨t, now, rfl⟩
  | ended t e' result => cases hnext.1
  | recalled t now n =>
    obtain ⟨-, k, hknown, -, hrecent⟩ := hnext
    obtain ⟨-, hold⟩ := hstale n k (hsame.symm.trans hknown)
    have hle : a ≤ now := by
      have hbefore := (List.pairwise_append.mp hmoments).2.2
      exact hbefore (.asked u a) (by simp) (.recalled t now n) (by simp)
    rw [Duration.outlasts_of_le hold (Nat.sub_le_sub_right hle k)] at hrecent
    cases hrecent

/-- After an answer, those who do not call recall it. -/
theorem Lawful.recalls {n e : Nat} (h : s.Lawful period deeds) (hidle : s.busy = none)
    (hknown : s.known = some (n, e)) (hserved : (served deeds).map Prod.fst = us ++ more)
    (hsingle : ∀ u ∈ us, ∀ now, .asked u now ∉ deeds) :
    ∃ first later, deeds = first ++ later ∧ (served first).map Prod.fst = us ∧
      ∀ d ∈ first, ∃ u now, d = .recalled u now n ∧ period.outlasts (now - e) = true := by
  induction us generalizing deeds with
  | nil => exact ⟨[], deeds, rfl, rfl, fun d hd ↦ nomatch hd⟩
  | cons u rest ih =>
    cases deeds with
    | nil => cases hserved
    | cons d deeds =>
      cases d with
      | asked t now =>
        obtain rfl := h.eq_of_asked hserved
        exact absurd List.mem_cons_self (hsingle t List.mem_cons_self now)
      | ended t e' result => cases hidle.symm.trans h.1.1
      | recalled t now m =>
        obtain ⟨⟨-, e', hlast, -, hrecent⟩, hlater⟩ := h
        obtain ⟨rfl, rfl⟩ := Prod.mk.inj (Option.some.inj (hlast.symm.trans hknown))
        obtain ⟨rfl, hserved'⟩ := List.cons.inj hserved
        obtain ⟨first, later, rfl, hfirst, hrecalled⟩ := ih hlater hserved' fun u hu now' hasked ↦
          hsingle u (List.mem_cons_of_mem _ hu) now' (List.mem_cons_of_mem _ hasked)
        refine ⟨.recalled t now m :: first, later, rfl, congrArg (t :: ·) hfirst, ?_⟩
        intro d hd
        rcases List.mem_cons.mp hd with rfl | hd
        · exact ⟨t, now, rfl, hrecent⟩
        · exact hrecalled d hd

/-- After an answer, those who do not call get it, while it is younger than the period. -/
theorem Lawful.shares {n e : Nat} {rest : List SizeDeed}
    (h : s.Lawful period (.ended t e (.ok n) :: rest))
    (hserved : (served rest).map Prod.fst = us ++ more) (hnodup : (us ++ more).Nodup)
    (hsingle : ∀ u ∈ us, ∀ now, .asked u now ∉ rest) :
    ∀ u ∈ us, (u, .ok n) ∈ served rest ∧
      ∀ now, (u, now) ∈ turns rest → period.outlasts (now - e) = true := by
  intro u hu
  obtain ⟨first, later, rfl, hfirst, hrecalled⟩ := Lawful.recalls h.2 rfl rfl hserved hsingle
  rw [served_append] at hserved ⊢
  rw [List.map_append, hfirst, List.append_cancel_left_eq] at hserved
  have hcome : ∀ x ∈ served first, x.2 = .ok n := by
    intro x hx
    obtain ⟨d, hd, hover⟩ := List.mem_filterMap.mp hx
    obtain ⟨v, now, rfl, -⟩ := hrecalled d hd
    cases hover
    rfl
  constructor
  · obtain ⟨x, hx, rfl⟩ := List.mem_map.mp (hfirst ▸ hu)
    rw [← hcome x hx]
    exact List.mem_append_left _ hx
  · intro now hturn
    rcases mem_turns_iff.mp hturn with hasked | ⟨m, hagain⟩
    · exact absurd hasked (hsingle u hu now)
    · rcases List.mem_append.mp hagain with hd | hd
      · obtain ⟨v, now', heq, hrecent⟩ := hrecalled _ hd
        cases heq
        exact hrecent
      · have hmore : u ∈ more := by
          rw [← hserved]
          exact List.mem_map_of_mem
            (List.mem_filterMap.mpr ⟨_, hd, rfl⟩ : (u, .ok m) ∈ served later)
        exact absurd rfl ((List.nodup_append.mp hnodup).2.2 u hu u hmore)

/-- Those who come after a call make none of their own just when it is answered and they have their
turns while the answer is younger than the period. -/
theorem Lawful.single_iff {e : Nat} {result : Except Error Nat} {rest : List SizeDeed}
    (h : s.Lawful period (before ++ .ended t e result :: rest)) (hidle : s.busy = none)
    (hmoments : (before ++ .ended t e result :: rest).Pairwise fun d d' ↦ d.moment ≤ d'.moment)
    (hserved : (served rest).map Prod.fst = us ++ more) (hnodup : (us ++ more).Nodup) :
    (∀ u ∈ us, ∀ now, .asked u now ∉ rest) ↔ us = [] ∨ ∃ n, result = .ok n ∧
      ∀ u ∈ us, ∀ now, (u, now) ∈ turns rest → period.outlasts (now - e) = true := by
  have hafter := (lawful_append.mp h).2
  constructor
  · intro hsingle
    cases us with
    | nil => exact Or.inl rfl
    | cons u us =>
      cases result with
      | ok n =>
        exact Or.inr ⟨n, rfl, fun v hv ↦ (hafter.shares hserved hnodup hsingle v hv).2⟩
      | error fault =>
        cases rest with
        | nil => cases hserved
        | cons d rest =>
          obtain ⟨v, now, rfl⟩ := h.asked_of_failed hidle hmoments
          obtain rfl := Lawful.eq_of_asked hafter.2 hserved
          exact absurd List.mem_cons_self (hsingle v List.mem_cons_self now)
  · rintro (rfl | ⟨n, rfl, hrecent⟩) u hu now hasked
    · cases hu
    · obtain ⟨between, later, rfl⟩ := List.append_of_mem hasked
      rw [← List.cons_append, ← List.append_assoc] at h
      have hold := h.spaced.2
      rw [hrecent u hu now (mem_turns_iff.mpr (Or.inl hasked))] at hold
      cases hold

end SizeState

end NodeFleet.Fleet
