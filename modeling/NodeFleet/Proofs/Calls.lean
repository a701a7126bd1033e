import NodeFleet.Proofs.History
/-!
Calls that come to at most one cycle: the fetches and the refreshes. While such a call is under way
it is at the errand of its operation and has no outcome; it gets its outcome when a step of its own
ends it, and keeps that. All of this holds in any history, direct writes or not.
-/

set_option autoImplicit false
set_option relaxedAutoImplicit false

namespace NodeFleet.Fleet

open NodeFleet.Discovery NodeFleet.Quota

namespace Operation

/-- A fetch or a refresh. -/
def OneCycle : Operation → Prop
  | fetchExplicit _ => True
  | fetchAuto => True
  | refresh => True
  | forceRefresh => True
  | _ => False

/-- The errand that the operation is while it is under way. -/
def errand? : Operation → Option Errand
  | fetchExplicit texts => (ExplicitSpec.parseAll texts).toOption.map fun specs ↦
      .fetch (.explicit specs)
  | fetchAuto => some (.fetch .auto)
  | refresh => some .refresh
  | forceRefresh => some .refresh
  | _ => none

theorem errand_cases {o : Operation} {errand : Errand} (h : o.errand? = some errand) :
    (∃ cycle, errand = .fetch cycle) ∨ errand = .refresh := by
  cases o with
  | fetchExplicit texts =>
    obtain ⟨specs, -, rfl⟩ := Option.map_eq_some_iff.mp h
    exact Or.inl ⟨_, rfl⟩
  | fetchAuto => exact Or.inl ⟨_, (Option.some.inj h).symm⟩
  | refresh => exact Or.inr (Option.some.inj h).symm
  | forceRefresh => exact Or.inr (Option.some.inj h).symm
  | _ => cases h

theorem cycles_of_errand? {o : Operation} {errand : Errand} (h : o.errand? = some errand)
    (site : Site) : o.cycles site = errand.cycles site := by
  cases o with
  | fetchExplicit texts =>
    dsimp only [errand?] at h
    dsimp only [cycles]
    cases hparse : ExplicitSpec.parseAll texts with
    | error e =>
      rw [hparse] at h
      cases h
    | ok specs =>
      rw [hparse] at h
      obtain rfl := Option.some.inj h
      rfl
  | fetchAuto | refresh | forceRefresh =>
    obtain rfl := Option.some.inj h
    rfl
  | _ => cases h

/-- Calls that come to no cycle: those with malformed specs, and refreshes that are not due. -/
inductive EndsAtOnce (due : Bool) : Operation → Outcome → Prop
  | malformed {texts : List String} {e : Error} (h : ExplicitSpec.parseAll texts = .error e) :
      EndsAtOnce due (fetchExplicit texts) (.failed e)
  | early (h : due = false) : EndsAtOnce due refresh .done

/-- Whether an activity is the operation under way, if that comes to one cycle. -/
def Drives (o : Operation) (a : Activity) : Prop :=
  o.OneCycle → ∃ errand phase, o.errand? = some errand ∧ a = .discovering errand phase

end Operation

namespace Outcome

def isDone : Outcome → Bool
  | done => true
  | _ => false

def isFailed : Outcome → Bool
  | failed _ => true
  | _ => false

theorem eq_done {o : Option Outcome} (h : o.any isDone = true) : o = some done := by
  obtain ⟨outcome, rfl, hdone⟩ := (Option.any_eq_true _ _).mp h
  cases outcome with
  | done => rfl
  | _ => cases hdone

end Outcome

variable {α : Type}

/-- How activities and outcomes go with the operations that a history has begun. -/
structure Tracked (events : List Event) (f : Fleet α) : Prop where
  known : ∀ e ∈ f.activities, e.1 < f.nextTicket
  ended : ∀ e ∈ f.outcomes, e.1 < f.nextTicket
  apart : ∀ e ∈ f.activities, f.outcome? e.1 = none
  drives : ∀ e ∈ f.activities, ∀ o, (begun events)[e.1]? = some o → o.Drives e.2

/-! ### Outcomes -/

/-- The first outcome of a ticket among more and more of them. -/
theorem find?_concat (outcomes : List (Ticket × Outcome)) (t t' : Ticket) (o : Outcome) :
    ((outcomes ++ [(t', o)]).find? fun e ↦ e.1 = t).map (·.2) =
      ((outcomes.find? fun e ↦ e.1 = t).map (·.2)).or (if t' = t then some o else none) := by
  rw [List.find?_append]
  cases outcomes.find? fun e ↦ e.1 = t with
  | some e => rfl
  | none =>
    by_cases ht : t' = t
    · simp [ht]
    · simp [ht]

theorem outcome?_settle (f : Fleet α) (t t' : Ticket) (r : Step α) :
    (f.settle t' r).outcome? t = (f.outcome? t).or
      (match r.2 with
        | .waiting _ => none
        | .finished o => if t' = t then some o else none) := by
  rcases r with ⟨w, a | o⟩
  · exact (Option.or_none).symm
  · exact find?_concat f.outcomes t t' o

theorem outcome?_begin [Balance α] (f : Fleet α) (o : Operation) (t : Ticket) :
    (f.begin o).outcome? t = (f.outcome? t).or
      (match (f.world.startOperation f.site f.nextTicket o).2 with
        | .waiting _ => none
        | .finished x => if f.nextTicket = t then some x else none) := by
  unfold Fleet.begin
  rcases f.world.startOperation f.site f.nextTicket o with ⟨w, a | x⟩
  · exact (Option.or_none).symm
  · exact find?_concat f.outcomes t f.nextTicket x

theorem outcome?_eq_none_of_le {events : List Event} {f : Fleet α} (h : f.Tracked events)
    {t : Ticket} (ht : f.nextTicket ≤ t) : f.outcome? t = none := by
  unfold Fleet.outcome?
  rw [Option.map_eq_none_iff, List.find?_eq_none]
  intro e he
  have hne : e.1 ≠ t := Nat.ne_of_lt (Nat.lt_of_lt_of_le (h.ended e he) ht)
  simpa using hne

variable [Balance α] {f : Fleet α}

/-- An outcome comes from the operation that begins under the ticket or from its own poll; only a
refresher gets one by being stopped. -/
theorem outcome?_step {t : Ticket} {e : Event} {o : Outcome} (h : f.outcome? t = none)
    (ho : (f.step e).outcome? t = some o) :
    (∃ op, e = .begin op ∧ f.nextTicket = t ∧
      (f.world.startOperation f.site t op).2 = .finished o) ∨
    (∃ a, e = .poll t ∧ f.activity? t = some a ∧
      (f.world.pollActivity f.site t a).2 = .finished o) ∨
    (∃ r, e = .stop t ∧ f.activity? t = some (.refreshing r)) := by
  cases e with
  | begin op =>
    refine Or.inl ⟨op, rfl, ?_⟩
    change (f.begin op).outcome? t = some o at ho
    rw [outcome?_begin, h, Option.none_or] at ho
    split at ho
    · simp at ho
    · rename_i x hx
      split_ifs at ho with ht
      obtain rfl := Option.some.inj ho
      obtain rfl := ht
      exact ⟨rfl, hx⟩
  | poll t' =>
    refine Or.inr (Or.inl ?_)
    change (f.poll t').outcome? t = some o at ho
    unfold Fleet.poll at ho
    cases hactivity : f.activity? t' with
    | none =>
      rw [hactivity] at ho
      rw [h] at ho
      simp at ho
    | some a =>
      rw [hactivity] at ho
      dsimp only at ho
      rw [outcome?_settle, h, Option.none_or] at ho
      split at ho
      · simp at ho
      · rename_i x hx
        split_ifs at ho with ht
        obtain rfl := Option.some.inj ho
        obtain rfl := ht
        exact ⟨a, rfl, hactivity, hx⟩
  | stop t' =>
    refine Or.inr (Or.inr ?_)
    change (f.stop t').outcome? t = some o at ho
    unfold Fleet.stop at ho
    split at ho
    · rename_i r hactivity
      rw [outcome?_settle, h, Option.none_or] at ho
      split at ho
      · simp at ho
      · split_ifs at ho with ht
        obtain rfl := ht
        exact ⟨r, rfl, hactivity⟩
    · rw [h] at ho
      simp at ho
  | elapse millis => exact absurd (h.symm.trans ho) (by simp)
  | account change => exact absurd (h.symm.trans ho) (by simp)
  | line line => exact absurd (h.symm.trans ho) (by simp)
  | files files => exact absurd (h.symm.trans ho) (by simp)
  | register c => exact absurd (h.symm.trans ho) (by simp)
  | unregister name => exact absurd (h.symm.trans ho) (by simp)
  | replace cs instances => exact absurd (h.symm.trans ho) (by simp)

/-- An outcome stays. -/
theorem outcome?_step_of_some {t : Ticket} {o : Outcome} (h : f.outcome? t = some o) (e : Event) :
    (f.step e).outcome? t = some o := by
  cases e with
  | begin op =>
    show (f.begin op).outcome? t = some o
    rw [outcome?_begin, h]
    rfl
  | poll t' =>
    show (f.poll t').outcome? t = some o
    unfold Fleet.poll
    split
    · exact h
    · rw [outcome?_settle, h]
      rfl
  | stop t' =>
    show (f.stop t').outcome? t = some o
    unfold Fleet.stop
    split
    · rw [outcome?_settle, h]
      rfl
    · exact h
  | _ => exact h

theorem outcome?_eq_none_of_step {t : Ticket} {e : Event} (h : (f.step e).outcome? t = none) :
    f.outcome? t = none := by
  cases ho : f.outcome? t with
  | none => rfl
  | some o => exact absurd ((outcome?_step_of_some ho e).symm.trans h) (by simp)

theorem outcome?_after_of_some {t : Ticket} {o : Outcome} (h : f.outcome? t = some o)
    (events : List Event) : (f.after events).outcome? t = some o := by
  induction events generalizing f with
  | nil => exact h
  | cons e rest ih => exact ih (outcome?_step_of_some h e)

/-! ### Activities by their tickets -/

omit [Balance α] in
theorem activity?_settle {t : Ticket} {a : Activity} (ha : f.activity? t = some a) (r : Step α)
    (t' : Ticket) :
    (f.settle t r).activity? t' =
      if t' = t then
        match r.2 with
        | .waiting a' => some a'
        | .finished _ => none
      else f.activity? t' := by
  obtain ⟨e, hfind, -⟩ := Option.map_eq_some_iff.mp ha
  have hticket : e.1 = t := by simpa using List.find?_some hfind
  rcases r with ⟨w, a' | o⟩
  · have hsame : (fun e : Ticket × Activity ↦ decide (e.1 = t')) ∘
        (fun e ↦ if e.1 = t then (t, a') else e) = fun e ↦ decide (e.1 = t') := by
      funext e
      show decide ((if e.1 = t then (t, a') else e).1 = t') = decide (e.1 = t')
      by_cases he : e.1 = t
      · rw [if_pos he, he]
      · rw [if_neg he]
    show ((f.activities.map fun e ↦ if e.1 = t then (t, a') else e).find?
      fun e ↦ decide (e.1 = t')).map (·.2) = _
    rw [List.find?_map, hsame]
    split_ifs with ht
    · rw [ht, hfind, Option.map_some, if_pos hticket]
      rfl
    · unfold activity?
      cases hother : f.activities.find? fun e ↦ decide (e.1 = t') with
      | none => rfl
      | some e' =>
        have hticket' : e'.1 = t' := by simpa using List.find?_some hother
        rw [Option.map_some, if_neg fun h ↦ ht (hticket'.symm.trans h)]
  · show ((f.activities.filter fun e ↦ decide (e.1 ≠ t)).find?
      fun e ↦ decide (e.1 = t')).map (·.2) = _
    rw [List.find?_filter]
    split_ifs with ht
    · rw [List.find?_eq_none.mpr]
      · rfl
      · intro e' _
        simp [ht]
    · have hsame : (fun e : Ticket × Activity ↦ decide (decide (e.1 ≠ t) = true ∧
          decide (e.1 = t') = true)) = fun e ↦ decide (e.1 = t') := by
        funext e'
        by_cases he : e'.1 = t'
        · simp [he, ht]
        · simp [he]
      rw [hsame]
      rfl

theorem activity?_begin (f : Fleet α) (o : Operation) (t : Ticket) :
    (f.begin o).activity? t = (f.activity? t).or
      (match (f.world.startOperation f.site f.nextTicket o).2 with
        | .waiting a => if f.nextTicket = t then some a else none
        | .finished _ => none) := by
  unfold Fleet.begin
  rcases f.world.startOperation f.site f.nextTicket o with ⟨w, a | x⟩
  · show ((f.activities ++ [(f.nextTicket, a)]).find? fun e ↦ decide (e.1 = t)).map (·.2) = _
    rw [List.find?_append]
    unfold activity?
    cases f.activities.find? fun e ↦ decide (e.1 = t) with
    | some e => rfl
    | none =>
      by_cases ht : f.nextTicket = t
      · simp [ht]
      · simp [ht]
  · exact Option.or_none.symm

theorem activity?_begin_of_ne (f : Fleet α) (o : Operation) {t : Ticket}
    (ht : t ≠ f.nextTicket) : (f.begin o).activity? t = f.activity? t := by
  rw [activity?_begin]
  split
  · rw [if_neg ht.symm, Option.or_none]
  · exact Option.or_none

theorem activity?_begin_self (hfresh : f.activity? f.nextTicket = none) {o : Operation} :
    (f.begin o).activity? f.nextTicket =
      match (f.world.startOperation f.site f.nextTicket o).2 with
      | .waiting a => some a
      | .finished _ => none := by
  rw [activity?_begin, hfresh, Option.none_or]
  split
  · exact if_pos rfl
  · rfl

/-- An activity is carried on by polls of its own and by nothing else. -/
theorem activity?_step_of_ne {t : Ticket} (ht : t < f.nextTicket) {e : Event} (hpoll : e ≠ .poll t)
    (hstop : e ≠ .stop t) : (f.step e).activity? t = f.activity? t := by
  cases e with
  | begin o => exact f.activity?_begin_of_ne o (Nat.ne_of_lt ht)
  | poll t' =>
    have hne : t ≠ t' := fun h ↦ hpoll (h ▸ rfl)
    show (f.poll t').activity? t = _
    unfold Fleet.poll
    cases hactivity : f.activity? t' with
    | none => rfl
    | some a =>
      dsimp only
      rw [activity?_settle hactivity, if_neg hne]
  | stop t' =>
    have hne : t ≠ t' := fun h ↦ hstop (h ▸ rfl)
    show (f.stop t').activity? t = _
    unfold Fleet.stop
    split
    · rename_i r hactivity
      rw [activity?_settle hactivity, if_neg hne]
    · rfl
  | _ => rfl

omit [Balance α] in
theorem Tracked.fresh_activity {events : List Event} (h : f.Tracked events) :
    f.activity? f.nextTicket = none := by
  cases hactivity : f.activity? f.nextTicket with
  | none => rfl
  | some a => exact absurd (h.known _ (mem_of_activity? hactivity)) (Nat.lt_irrefl _)

/-! ### Activities of a call -/

omit [Balance α] in
theorem discovering_of_wrapCycle {errand : Errand}
    {r : World α × Progress CyclePhase (Except Error Unit)} {a : Activity}
    (h : (World.wrapCycle errand r).2 = .waiting a) : ∃ phase, a = .discovering errand phase := by
  rcases r with ⟨w, phase | result⟩
  · exact ⟨phase, (Progress.waiting.inj h).symm⟩
  · cases h

theorem discovering_of_afterCycle {site : Site} {t : Ticket} {o : Operation} {errand : Errand}
    (he : o.errand? = some errand) {r : World α × Progress CyclePhase (Except Error Unit)}
    {a : Activity} (h : (World.afterCycle site t errand r).2 = .waiting a) :
    ∃ phase, a = .discovering errand phase := by
  rcases Operation.errand_cases he with ⟨cycle, rfl⟩ | rfl
  · exact discovering_of_wrapCycle h
  · exact discovering_of_wrapCycle h

/-- A call with one cycle is over at once and has done nothing, or it begins its errand. -/
theorem World.startOperation_cases (w : World α) (site : Site) (t : Ticket) {o : Operation}
    (ho : o.OneCycle) :
    (∃ x, o.EndsAtOnce (w.refreshDue site) x ∧ w.startOperation site t o = (w, .finished x)) ∨
      ∃ errand, o.errand? = some errand ∧
        w.startOperation site t o = w.startErrand site t errand := by
  cases o with
  | fetchExplicit texts =>
    dsimp only [World.startOperation, Operation.errand?]
    cases hparse : ExplicitSpec.parseAll texts with
    | error e => exact Or.inl ⟨_, .malformed hparse, rfl⟩
    | ok specs => exact Or.inr ⟨_, rfl, rfl⟩
  | fetchAuto => exact Or.inr ⟨_, rfl, rfl⟩
  | refresh =>
    dsimp only [World.startOperation]
    split_ifs with hdue
    · exact Or.inr ⟨_, rfl, rfl⟩
    · exact Or.inl ⟨_, .early (Bool.not_eq_true _ ▸ hdue), rfl⟩
  | forceRefresh => exact Or.inr ⟨_, rfl, rfl⟩
  | _ => exact ho.elim

theorem drives_startOperation {w : World α} {site : Site} {t : Ticket} {o : Operation}
    {a : Activity} (h : (w.startOperation site t o).2 = .waiting a) : o.Drives a := by
  intro hone
  rcases w.startOperation_cases site t hone with ⟨outcome, -, hover⟩ | ⟨errand, he, hstart⟩
  · rw [hover] at h
    simp at h
  · rw [hstart] at h
    obtain ⟨phase, ha⟩ := discovering_of_afterCycle he h
    exact ⟨errand, phase, he, ha⟩

theorem drives_pollActivity {w : World α} {site : Site} {t : Ticket} {o : Operation}
    {a a' : Activity} (ha : o.Drives a) (h : (w.pollActivity site t a).2 = .waiting a') :
    o.Drives a' := by
  intro hone
  obtain ⟨errand, phase, he, rfl⟩ := ha hone
  obtain ⟨phase', ha'⟩ := discovering_of_afterCycle he h
  exact ⟨errand, phase', he, ha'⟩

omit [Balance α] in
theorem Tracked.settle {events : List Event} (h : f.Tracked events) {t : Ticket} {a : Activity}
    (ha : f.activity? t = some a) {r : Step α}
    (hr : ∀ (o : Operation) a', o.Drives a → r.2 = .waiting a' → o.Drives a') :
    (f.settle t r).Tracked events := by
  have hmem := mem_of_activity? ha
  have ht := h.known _ hmem
  rcases r with ⟨w, a' | x⟩
  · refine ⟨?_, h.ended, ?_, ?_⟩
    · intro e he
      obtain ⟨old, hold, rfl⟩ := List.mem_map.mp he
      split_ifs
      · exact ht
      · exact h.known old hold
    · intro e he
      obtain ⟨old, hold, rfl⟩ := List.mem_map.mp he
      split_ifs
      · exact h.apart (t, a) hmem
      · exact h.apart old hold
    · intro e he o ho
      obtain ⟨old, hold, rfl⟩ := List.mem_map.mp he
      split_ifs at ho ⊢ with hsame
      · exact hr o a' (h.drives _ hmem o ho) rfl
      · exact h.drives old hold o ho
  · refine ⟨?_, ?_, ?_, ?_⟩
    · exact fun e he ↦ h.known e (List.mem_of_mem_filter he)
    · intro e he
      rcases List.mem_append.mp he with he | he
      · exact h.ended e he
      · obtain rfl := List.mem_singleton.mp he
        exact ht
    · intro e he
      obtain ⟨hold, hne⟩ := List.mem_filter.mp he
      have hother : t ≠ e.1 := fun heq ↦ by simp [heq] at hne
      refine (f.outcome?_settle e.1 t (w, .finished x)).trans ?_
      rw [h.apart e hold, Option.none_or]
      exact if_neg hother
    · exact fun e he o ho ↦ h.drives e (List.mem_of_mem_filter he) o ho

theorem Tracked.step {events : List Event} (h : f.Tracked events)
    (hnext : f.nextTicket = (begun events).length) (e : Event) :
    (f.step e).Tracked (events ++ [e]) := by
  have hplace : ∀ t, t < f.nextTicket → (begun (events ++ [e]))[t]? = (begun events)[t]? :=
    fun t ht ↦ begun_of_lt (hnext ▸ ht) [e]
  have hlater : f.Tracked (events ++ [e]) := by
    refine ⟨h.known, h.ended, h.apart, ?_⟩
    intro a ha o ho
    rw [hplace _ (h.known a ha)] at ho
    exact h.drives a ha o ho
  cases e with
  | begin op =>
    have hnew : (begun (events ++ [.begin op]))[f.nextTicket]? = some op := by
      rw [hnext]
      exact begun_of_begin events op []
    have hover : ∀ e ∈ f.outcomes, e.1 < f.nextTicket + 1 := fun e he ↦
      Nat.lt_succ_of_lt (h.ended e he)
    have hknown : ∀ e ∈ f.activities, e.1 < f.nextTicket + 1 := fun e he ↦
      Nat.lt_succ_of_lt (h.known e he)
    show (f.begin op).Tracked _
    unfold Fleet.begin
    rcases hstart : f.world.startOperation f.site f.nextTicket op with ⟨w, a | x⟩
    · refine ⟨?_, hover, ?_, ?_⟩
      · intro e he
        rcases List.mem_append.mp he with he | he
        · exact hknown e he
        · obtain rfl := List.mem_singleton.mp he
          exact Nat.lt_succ_self _
      · intro e he
        rcases List.mem_append.mp he with he | he
        · exact h.apart e he
        · obtain rfl := List.mem_singleton.mp he
          exact outcome?_eq_none_of_le h (Nat.le_refl _)
      · intro e he o ho
        rcases List.mem_append.mp he with he | he
        · exact hlater.drives e he o ho
        · obtain rfl := List.mem_singleton.mp he
          rw [hnew] at ho
          obtain rfl := Option.some.inj ho
          exact drives_startOperation (congrArg Prod.snd hstart)
    · refine ⟨hknown, ?_, ?_, hlater.drives⟩
      · intro e he
        rcases List.mem_append.mp he with he | he
        · exact hover e he
        · obtain rfl := List.mem_singleton.mp he
          exact Nat.lt_succ_self _
      · intro e he
        have hother : f.nextTicket ≠ e.1 := Nat.ne_of_gt (h.known e he)
        refine (find?_concat f.outcomes e.1 f.nextTicket x).trans ?_
        have hnone : (f.outcomes.find? fun o ↦ o.1 = e.1).map (·.2) = none := h.apart e he
        rw [hnone, Option.none_or]
        exact if_neg hother
  | poll t =>
    show (f.poll t).Tracked _
    unfold Fleet.poll
    cases hactivity : f.activity? t with
    | none => exact hlater
    | some a => exact hlater.settle hactivity fun o a' ho ha' ↦ drives_pollActivity ho ha'
  | stop t =>
    show (f.stop t).Tracked _
    unfold Fleet.stop
    split
    · rename_i r hactivity
      refine hlater.settle hactivity ?_
      intro o a' ho _ hone
      obtain ⟨errand, phase, -, hr⟩ := ho hone
      simp at hr
    · exact hlater
  | _ => exact ⟨hlater.known, hlater.ended, hlater.apart, hlater.drives⟩

/-- Activities and outcomes go with what has begun, after any history. -/
theorem tracked_after (site : Site) (cloud : Cloud) (files : Files) (quotas : Option (Quotas α))
    (events : List Event) : ((fresh site cloud files quotas).after events).Tracked events := by
  induction events using List.reverseRecOn with
  | nil =>
    refine ⟨?_, ?_, ?_, ?_⟩
    · exact fun e he ↦ absurd he List.not_mem_nil
    · exact fun e he ↦ absurd he List.not_mem_nil
    · exact fun e he ↦ absurd he List.not_mem_nil
    · exact fun e he ↦ absurd he List.not_mem_nil
  | append_singleton before e ih =>
    rw [after_concat]
    refine ih.step ?_ e
    exact nextTicket_after site cloud files quotas before

end NodeFleet.Fleet
