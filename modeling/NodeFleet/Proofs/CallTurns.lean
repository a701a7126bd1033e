import Mathlib.Data.List.Forall2
import NodeFleet.Proofs.Calls
/-!
Calls that discover, and the turns that they enter in the journal. While such a call is under way,
it has a turn with success for each of its cycles but those of the errand that it is at. It is done
with the success of its last cycle and fails with the first cycle that fails; only one with
malformed specs, and a refresh that is not due, is over without any turn. All of this holds in any
history in which names stay distinct.
-/

set_option autoImplicit false
set_option relaxedAutoImplicit false

namespace NodeFleet.Fleet

open NodeFleet.Discovery NodeFleet.Quota

/-- The turns of the ticket. -/
def Journal.turnsOf (j : Journal) (t : Ticket) : List Turn :=
  j.turns.filter fun x ↦ x.brief.ticket = t

/-- Turns by which cycles have come to success, one for each. -/
def Completed (turns : List Turn) (cycles : List Cycle) : Prop :=
  List.Forall₂ (fun x cycle ↦ x.brief.cycle = cycle ∧ x.result = .ok ()) turns cycles

theorem Completed.concat {turns : List Turn} {cycles : List Cycle} (h : Completed turns cycles)
    {x : Turn} {cycle : Cycle} (hcycle : x.brief.cycle = cycle) (hresult : x.result = .ok ()) :
    Completed (turns ++ [x]) (cycles ++ [cycle]) :=
  List.rel_append h (.cons ⟨hcycle, hresult⟩ .nil)

theorem Errand.cycles_eq (site : Site) (errand : Errand) :
    ∃ rest, errand.cycles site = errand.cycle site :: rest := by
  cases errand <;> exact ⟨_, rfl⟩

namespace Operation

/-- A call that comes to cycles and is over with them: a fetch, a refresh or a creation. -/
def Discovers (o : Operation) : Prop :=
  o.OneCycle ∨ o = create

/-- How the cycles of a call end it: with the success of them all, or with the first that fails. -/
inductive EndsWith (site : Site) (o : Operation) : Outcome → List Turn → Prop
  | done {turns : List Turn} (hsome : turns ≠ []) (h : Completed turns (o.cycles site)) :
      EndsWith site o .done turns
  | failed {before : List Turn} {x : Turn} {e : Error} {past later : List Cycle}
      (hcycles : o.cycles site = past ++ x.brief.cycle :: later) (h : Completed before past)
      (hx : x.result = .error e) : EndsWith site o (.failed e) (before ++ [x])

/-- How a call ends, and with what turns; a refresh was `due` when it began, or was not. -/
def Ends (site : Site) (due : Bool) (o : Operation) (outcome : Outcome) (turns : List Turn) :
    Prop :=
  o.EndsAtOnce due outcome ∧ turns = [] ∨ o.EndsWith site outcome turns

/-- Where a call is that is under way: at an errand with the cycles that it has not completed. -/
def Underway (site : Site) (o : Operation) (a : Activity) (turns : List Turn) : Prop :=
  ∃ errand phase past, a = .discovering errand phase ∧ o.cycles site = past ++ errand.cycles site ∧
    Completed turns past

/-- Whether the turns go with what a step of the call has come to. -/
def Comes (site : Site) (o : Operation) : Progress Activity Outcome → List Turn → Prop
  | .waiting a, turns => o.Underway site a turns
  | .finished outcome, turns => o.EndsWith site outcome turns

variable {site : Site} {o : Operation} {outcome : Outcome} {turns : List Turn}

theorem OneCycle.length_cycles_le (h : o.OneCycle) (site : Site) :
    (o.cycles site).length ≤ 1 := by
  cases o with
  | fetchExplicit texts =>
    dsimp only [cycles]
    cases ExplicitSpec.parseAll texts <;> simp
  | fetchAuto => exact Nat.le_refl 1
  | refresh => exact Nat.le_refl 1
  | forceRefresh => exact Nat.le_refl 1
  | _ => exact h.elim

/-- The one cycle of a call ends it by its result. -/
theorem EndsWith.of_oneCycle (h : o.EndsWith site outcome turns) (ho : o.OneCycle) :
    ∃ x, turns = [x] ∧ o.cycles site = [x.brief.cycle] ∧
      outcome = World.ofResult (fun _ ↦ .done) x.result := by
  have hlength := ho.length_cycles_le site
  cases h with
  | done hsome h =>
    generalize o.cycles site = cycles at h hlength ⊢
    cases h with
    | nil => exact absurd rfl hsome
    | cons hx hrest =>
      obtain rfl := List.length_eq_zero_iff.mp (Nat.le_zero.mp (Nat.le_of_succ_le_succ hlength))
      cases hrest
      exact ⟨_, rfl, by rw [hx.1], by rw [hx.2]; rfl⟩
  | @failed before x e past later hcycles h hx =>
    rw [hcycles] at hlength ⊢
    obtain ⟨rfl, rfl⟩ : past = [] ∧ later = [] := by
      simpa [← Nat.add_assoc] using hlength
    cases h
    exact ⟨x, rfl, rfl, by rw [hx]; rfl⟩

theorem Underway.turns_eq_nil {a : Activity} (h : o.Underway site a turns) (ho : o.OneCycle) :
    turns = [] := by
  obtain ⟨errand, phase, past, -, hcycles, hturns⟩ := h
  obtain ⟨rest, hrest⟩ := errand.cycles_eq site
  have hlength := ho.length_cycles_le site
  rw [hcycles, hrest] at hlength
  obtain ⟨rfl, -⟩ : past = [] ∧ rest = [] := by
    simpa [← Nat.add_assoc] using hlength
  exact List.forall₂_nil_right_iff.mp hturns

end Operation

variable {α : Type} {H : Lore} {site : Site} {t : Ticket}

/-! ### The turns of one ticket -/

theorem World.Moved.turnsOf_of_ne {w w' : World α} (h : World.Moved t w w') {t' : Ticket}
    (ht : t' ≠ t) : w'.journal.turnsOf t' = w.journal.turnsOf t' := by
  obtain ⟨entered, hturns, howned⟩ := h.turns
  have hnone : entered.filter (fun x ↦ decide (x.brief.ticket = t')) = [] := by
    rw [List.filter_eq_nil_iff]
    intro x hx
    rw [howned x hx]
    simpa using ht.symm
  unfold Journal.turnsOf
  rw [hturns, List.filter_append, hnone, List.append_nil]

/-- What a step enters for its own ticket is all that it enters. -/
theorem World.Moved.turns_eq {w w' : World α} (h : World.Moved t w w') {entered : List Turn}
    (ht : w'.journal.turnsOf t = w.journal.turnsOf t ++ entered) :
    w'.journal.turns = w.journal.turns ++ entered := by
  obtain ⟨turns, hturns, howned⟩ := h.turns
  have hall : turns.filter (fun x ↦ decide (x.brief.ticket = t)) = turns :=
    List.filter_eq_self.mpr fun x hx ↦ decide_eq_true (howned x hx)
  unfold Journal.turnsOf at ht
  rw [hturns, List.filter_append, hall] at ht
  rw [hturns, List.append_cancel_left ht]

/-- A cycle that waits has entered nothing yet; one that ends enters its turn. -/
theorem Carried.turnsOf {cycle : Cycle} {w : World α}
    {r : World α × Progress CyclePhase (Except Error Unit)} (h : Carried H site t cycle w r) :
    match r.2 with
    | .waiting _ => r.1.journal.turnsOf t = w.journal.turnsOf t
    | .finished result => ∃ x : Turn, r.1.journal.turnsOf t = w.journal.turnsOf t ++ [x] ∧
        x.brief.cycle = cycle ∧ x.result = result := by
  have hreached := h.reached
  unfold Journal.turnsOf
  rcases r with ⟨w', phase | result⟩
  · dsimp only
    rw [hreached.2]
  · obtain ⟨-, x, hturns, hticket, hcycle, hresult⟩ := hreached
    refine ⟨x, ?_, hcycle, hresult⟩
    dsimp only
    rw [hturns, List.filter_append]
    simp [hticket]

/-! ### Steps of a call -/

namespace Operation

variable {o : Operation} {errand : Errand} {past : List Cycle} {w : World α}
  {r : World α × Progress CyclePhase (Except Error Unit)}

/-- A step of the cycle that a call is at, if that is its last one or does not succeed. -/
theorem comes_wrapCycle (ho : o.cycles site = past ++ errand.cycles site)
    (hturns : Completed (w.journal.turnsOf t) past)
    (hc : Carried H site t (errand.cycle site) w r)
    (hlast : r.2 = .finished (.ok ()) → errand.cycles site = [errand.cycle site]) :
    o.Comes site (World.wrapCycle errand r).2
      ((World.wrapCycle errand r).1.journal.turnsOf t) := by
  have hentered := hc.turnsOf
  rcases r with ⟨w', phase | e | ⟨⟩⟩
  · have hsame : w'.journal.turnsOf t = w.journal.turnsOf t := hentered
    exact ⟨errand, phase, past, rfl, ho, hsame.symm ▸ hturns⟩
  · obtain ⟨x, hx, hcycle, hresult⟩ := hentered
    obtain ⟨later, hlater⟩ := errand.cycles_eq site
    show o.EndsWith site (.failed e) (w'.journal.turnsOf t)
    rw [show w'.journal.turnsOf t = _ from hx]
    exact .failed (ho.trans (by rw [hlater, hcycle])) hturns hresult
  · obtain ⟨x, hx, hcycle, hresult⟩ := hentered
    show o.EndsWith site .done (w'.journal.turnsOf t)
    rw [show w'.journal.turnsOf t = _ from hx]
    refine .done (by simp) ?_
    rw [ho, hlast rfl]
    exact hturns.concat hcycle hresult

variable [Balance α]

/-- A step of its cycle takes a call from errand to errand, or to its end. -/
theorem comes_afterCycle (ho : o.cycles site = past ++ errand.cycles site)
    (hturns : Completed (w.journal.turnsOf t) past)
    (htells : ∀ q r, w.Tells site q r → H.told t q r)
    (hasks : ∀ c ∈ errand.cycles site, H.asked t c)
    (hc : Carried H site t (errand.cycle site) w r) :
    o.Comes site (World.afterCycle site t errand r).2
      ((World.afterCycle site t errand r).1.journal.turnsOf t) := by
  cases errand with
  | fetch cycle => exact comes_wrapCycle ho hturns hc fun _ ↦ rfl
  | refresh => exact comes_wrapCycle ho hturns hc.noted fun _ ↦ rfl
  | create =>
    rcases r with ⟨w', phase | e | ⟨⟩⟩
    · exact comes_wrapCycle ho hturns hc (by rintro ⟨⟩)
    · exact comes_wrapCycle ho hturns hc (by rintro ⟨⟩)
    · obtain ⟨x, hx, hcycle, hresult⟩ := hc.turnsOf
      -- the refresh begins in the same step
      have htells' : ∀ q r, w'.Tells site q r → H.told t q r := fun q r hr ↦
        htells q r (hr.of_answers hc.moved.answers)
      have hauto : H.asked t .auto := hasks .auto (List.mem_cons_of_mem _ List.mem_cons_self)
      have hcompleted :
          Completed (w'.journal.turnsOf t) (past ++ [.explicit site.explicitSpecs]) := by
        rw [show w'.journal.turnsOf t = _ from hx]
        exact hturns.concat hcycle hresult
      have hrest : o.cycles site =
          past ++ [.explicit site.explicitSpecs] ++ Errand.refresh.cycles site := by
        rw [ho, List.append_assoc]
        rfl
      exact comes_wrapCycle hrest hcompleted
        (carried_startCycle hc.kept htells' hauto hc.reached.1.not_heldBy).noted fun _ ↦ rfl

theorem comes_startErrand (h : w.Kept H site) (htells : ∀ q r, w.Tells site q r → H.told t q r)
    (hout : ¬ w.journal.HeldBy t) (hasks : ∀ c ∈ errand.cycles site, H.asked t c)
    (ho : o.cycles site = errand.cycles site) (ht : w.journal.turnsOf t = []) :
    o.Comes site (w.startErrand site t errand).2
      ((w.startErrand site t errand).1.journal.turnsOf t) := by
  have hturns : Completed (w.journal.turnsOf t) [] := by
    rw [ht]
    exact .nil
  have hcycles : o.cycles site = [] ++ errand.cycles site := ho
  exact comes_afterCycle hcycles hturns htells hasks
    (carried_startCycle h htells (hasks _ (errand.cycle_mem site)) hout)

theorem Underway.pollActivity {a : Activity} (hu : o.Underway site a (w.journal.turnsOf t))
    (h : w.Kept H site) (htells : ∀ q r, w.Tells site q r → H.told t q r)
    (ha : a.Sound H site w.journal t) :
    o.Comes site (w.pollActivity site t a).2
      ((w.pollActivity site t a).1.journal.turnsOf t) := by
  obtain ⟨errand, phase, past, rfl, ho, hturns⟩ := hu
  exact comes_afterCycle ho hturns htells ha.asked
    (carried_pollCycle h htells (ha.asked _ (errand.cycle_mem site)) (ha.busy _ _ rfl))

/-- A call that discovers is over at once, or it begins an errand that has all of its cycles. -/
theorem Discovers.starts (ho : o.Discovers) (w : World α) (site : Site) (t : Ticket) :
    (∃ x, o.EndsAtOnce (w.refreshDue site) x ∧ w.startOperation site t o = (w, .finished x)) ∨
      ∃ errand, o.cycles site = errand.cycles site ∧
        w.startOperation site t o = w.startErrand site t errand := by
  rcases ho with hone | rfl
  · refine (w.startOperation_cases site t hone).imp_right ?_
    rintro ⟨errand, he, hstart⟩
    exact ⟨errand, cycles_of_errand? he site, hstart⟩
  · exact Or.inr ⟨.create, rfl, rfl⟩

end Operation

/-! ### Steps of a fleet -/

section

variable [Balance α] {f : Fleet α} {e : Event} {o : Operation} {due : Bool}

/-- Only what begins or is polled enters turns. -/
theorem turns_of_other (f : Fleet α) {e : Event} (hbegin : ∀ o, e ≠ .begin o)
    (hpoll : ∀ t, e ≠ .poll t) : (f.step e).world.journal.turns = f.world.journal.turns := by
  cases e with
  | begin o => exact absurd rfl (hbegin o)
  | poll t => exact absurd rfl (hpoll t)
  | stop t =>
    show (f.stop t).world.journal.turns = _
    unfold Fleet.stop
    split
    · rw [world_settle]
      rfl
    · rfl
  | account change => exact congrArg Journal.turns (journal_changeAccount f.world change).1
  | replace cs instances =>
    obtain ⟨cells, hnew⟩ := f.world.inquired_newGroups cs
    show (f.world.replace cs instances).1.journal.turns = _
    unfold World.replace
    rw [hnew]
    rfl
  | _ => rfl

/-- Turns under a ticket that has been given out are entered by its own steps. -/
theorem Sound.turnsOf_step (hs : f.Sound H)
    (htells : ∀ t ≤ f.nextTicket, ∀ q r, f.world.Tells f.site q r → H.told t q r)
    (hasks : ∀ o, e.operation? = some o → ∀ c ∈ o.cycles f.site, H.asked f.nextTicket c)
    (ht : t < f.nextTicket) (he : e ≠ .poll t) :
    (f.step e).world.journal.turnsOf t = f.world.journal.turnsOf t := by
  cases e with
  | begin o =>
    show (f.begin o).world.journal.turnsOf t = _
    rw [world_begin]
    exact (taken_startOperation hs.kept (htells _ (Nat.le_refl _)) (hs.unknown _ (Nat.le_refl _))
      (hasks o rfl)).moved.turnsOf_of_ne (Nat.ne_of_lt ht)
  | poll u =>
    have hne : t ≠ u := fun h ↦ he (h ▸ rfl)
    show (f.poll u).world.journal.turnsOf t = _
    unfold Fleet.poll
    cases hactivity : f.activity? u with
    | none => rfl
    | some a =>
      have hmem := mem_of_activity? hactivity
      dsimp only
      rw [world_settle]
      exact (taken_pollActivity hs.kept (htells _ (Nat.le_of_lt (hs.known _ hmem)))
        (hs.activities _ hmem)).moved.turnsOf_of_ne hne
  | _ =>
    unfold Journal.turnsOf
    rw [f.turns_of_other (by rintro o ⟨⟩) (by rintro t ⟨⟩)]

/-- A step by which a call gets its outcome is a step of its own activity. -/
theorem moved_of_outcome (hs : f.Sound H)
    (htells : ∀ t ≤ f.nextTicket, ∀ q r, f.world.Tells f.site q r → H.told t q r) {e : Event}
    (hasks : ∀ o, e.operation? = some o → ∀ c ∈ o.cycles f.site, H.asked f.nextTicket c)
    {outcome : Outcome} (hbefore : f.outcome? t = none)
    (hafter : (f.step e).outcome? t = some outcome) :
    World.Moved t f.world (f.step e).world := by
  rcases outcome?_step hbefore hafter with
    ⟨op, rfl, rfl, -⟩ | ⟨a, rfl, hactivity, -⟩ | ⟨r, rfl, hactivity⟩
  · have hout := hs.unknown _ (Nat.le_refl _)
    show World.Moved _ f.world (f.begin op).world
    rw [world_begin]
    exact (taken_startOperation hs.kept (htells _ (Nat.le_refl _)) hout (hasks op rfl)).moved
  · have hmem := mem_of_activity? hactivity
    have htold := htells _ (Nat.le_of_lt (hs.known _ hmem))
    show World.Moved t f.world (f.poll t).world
    unfold Fleet.poll
    rw [hactivity]
    dsimp only
    rw [world_settle]
    exact (taken_pollActivity hs.kept htold (hs.activities _ hmem)).moved
  · show World.Moved t f.world (f.stop t).world
    unfold Fleet.stop
    rw [hactivity]
    dsimp only
    rw [world_settle]
    exact .refl t f.world

/-- How a fleet carries a call: it is under way, or over with its turns. -/
inductive Carries (o : Operation) (due : Bool) (t : Ticket) (f : Fleet α) : Prop
  | underway {a : Activity} (activity : f.activity? t = some a) (outcome : f.outcome? t = none)
      (turns : o.Underway f.site a (f.world.journal.turnsOf t))
  | ended {x : Outcome} (activity : f.activity? t = none) (outcome : f.outcome? t = some x)
      (turns : o.Ends f.site due x (f.world.journal.turnsOf t))

omit [Balance α] in
/-- How the fleet carries the call after a step of its own. -/
theorem Carries.of_comes {r : Step α} (hr : o.Comes f.site r.2 (r.1.journal.turnsOf t))
    (hworld : f.world = r.1)
    (hwaits : ∀ a, r.2 = .waiting a → f.activity? t = some a ∧ f.outcome? t = none)
    (hends : ∀ x, r.2 = .finished x → f.activity? t = none ∧ f.outcome? t = some x) :
    f.Carries o due t := by
  rw [← hworld] at hr
  rcases r with ⟨w, a | x⟩
  · obtain ⟨hactivity, houtcome⟩ := hwaits _ rfl
    exact .underway hactivity houtcome hr
  · obtain ⟨hactivity, houtcome⟩ := hends _ rfl
    exact .ended hactivity houtcome (Or.inr hr)

theorem carries_begin (hs : f.Sound H) (hfresh : f.activity? f.nextTicket = none)
    (hnone : f.outcome? f.nextTicket = none)
    (hturns : f.world.journal.turnsOf f.nextTicket = [])
    (htells : ∀ q r, f.world.Tells f.site q r → H.told f.nextTicket q r)
    (hasks : ∀ c ∈ o.cycles f.site, H.asked f.nextTicket c) (ho : o.Discovers) :
    (f.begin o).Carries o (f.world.refreshDue f.site) f.nextTicket := by
  have hworld := world_begin f o
  have hsite := site_begin f o
  rcases ho.starts f.world f.site f.nextTicket with ⟨x, hx, hstart⟩ | ⟨errand, hcycles, hstart⟩
  · rw [hstart] at hworld
    refine .ended (x := x) ?_ ?_ (Or.inl ⟨hx, by rw [hworld, hturns]⟩)
    · rw [activity?_begin_self hfresh, hstart]
    · rw [outcome?_begin, hnone, hstart]
      exact if_pos rfl
  · have hcomes := Operation.comes_startErrand hs.kept htells (hs.unknown _ (Nat.le_refl _))
      (hcycles ▸ hasks) hcycles hturns
    rw [← hstart, ← hsite] at hcomes
    refine .of_comes (hsite ▸ hcomes) hworld (fun a ha ↦ ?_) fun x hx ↦ ?_
    · rw [activity?_begin_self hfresh, outcome?_begin, hnone, ha]
      exact ⟨rfl, rfl⟩
    · rw [activity?_begin_self hfresh, outcome?_begin, hnone, hx]
      exact ⟨rfl, if_pos rfl⟩

theorem Carries.poll (h : f.Carries o due t) (hs : f.Sound H)
    (htells : ∀ q r, f.world.Tells f.site q r → H.told t q r) : (f.poll t).Carries o due t := by
  cases h with
  | ended activity outcome turns =>
    have hsame : f.poll t = f := by
      unfold Fleet.poll
      rw [activity]
    rw [hsame]
    exact .ended activity outcome turns
  | @underway a activity outcome turns =>
    have hcomes := turns.pollActivity hs.kept htells (hs.activities _ (mem_of_activity? activity))
    have hpolled : f.poll t = f.settle t (f.world.pollActivity f.site t a) := by
      unfold Fleet.poll
      rw [activity]
    rw [hpolled]
    refine .of_comes (by rwa [site_settle]) (world_settle ..) (fun a' ha ↦ ?_) fun x hx ↦ ?_
    · rw [activity?_settle activity, if_pos rfl, outcome?_settle, outcome, ha]
      exact ⟨rfl, rfl⟩
    · rw [activity?_settle activity, if_pos rfl, outcome?_settle, outcome, hx]
      exact ⟨rfl, if_pos rfl⟩

/-- What is under way and no refresher is carried on by its own polls alone. -/
theorem activity?_step_of_unstoppable (ht : t < f.nextTicket) (hpoll : e ≠ .poll t)
    (ha : ∀ r, f.activity? t ≠ some (.refreshing r)) :
    (f.step e).activity? t = f.activity? t := by
  by_cases hstop : e = .stop t
  · subst hstop
    show (f.stop t).activity? t = _
    unfold Fleet.stop
    split
    · rename_i r hr
      exact absurd hr (ha r)
    · rfl
  · exact activity?_step_of_ne ht hpoll hstop

/-- Only its own polls carry a call on, and none does when it is over. -/
theorem Carries.step (h : f.Carries o due t) (hs : f.Sound H)
    (htells : ∀ t ≤ f.nextTicket, ∀ q r, f.world.Tells f.site q r → H.told t q r)
    (hasks : ∀ o, e.operation? = some o → ∀ c ∈ o.cycles f.site, H.asked f.nextTicket c)
    (ht : t < f.nextTicket) : (f.step e).Carries o due t := by
  by_cases he : e = .poll t
  · subst he
    exact h.poll hs (htells t (Nat.le_of_lt ht))
  · have hturns := hs.turnsOf_step htells hasks ht he
    cases h with
    | ended activity outcome turns =>
      refine .ended ?_ (outcome?_step_of_some outcome e) (by rwa [(f.site_step e).1, hturns])
      rw [activity?_step_of_unstoppable ht he (by simp [activity]), activity]
    | @underway a activity outcome turns =>
      obtain ⟨errand, phase, past, rfl, hcycles, hpast⟩ := turns
      have hnone : (f.step e).outcome? t = none := by
        cases ho : (f.step e).outcome? t with
        | none => rfl
        | some o =>
          rcases outcome?_step outcome ho with ⟨op, -, hnext, -⟩ | ⟨a, hpoll, -⟩ | ⟨r, -, hr⟩
          · exact absurd ht (hnext ▸ Nat.lt_irrefl _)
          · exact absurd hpoll he
          · cases hr.symm.trans activity
      refine .underway ?_ hnone ⟨errand, phase, past, rfl, ?_⟩
      · rw [activity?_step_of_unstoppable ht he (by simp [activity]), activity]
      · rw [(f.site_step e).1, hturns]
        exact ⟨hcycles, hpast⟩

end

/-! ### Histories -/

/-- Whether every call of a history that discovers and is over has come to its end by its turns. -/
def EndsByTurns [Balance α] (f : Fleet α) (events : List Event) : Prop :=
  ∀ before o during, events = before ++ .begin o :: during → o.Discovers → ∀ outcome,
    (f.after events).outcome? (f.after before).nextTicket = some outcome →
      o.Ends f.site ((f.after before).world.refreshDue f.site) outcome
        ((f.after events).world.journal.turnsOf (f.after before).nextTicket)

/-- The event at which an operation begins. -/
theorem exists_begin {events : List Event} {o : Operation} (h : (begun events)[t]? = some o) :
    ∃ before during, events = before ++ .begin o :: during ∧ (begun before).length = t := by
  induction events generalizing t with
  | nil => cases h
  | cons e rest ih =>
    cases hoperation : e.operation? with
    | none =>
      have hrest : begun (e :: rest) = begun rest := List.filterMap_cons_none hoperation
      obtain ⟨before, during, rfl, hlength⟩ := ih (hrest ▸ h)
      exact ⟨e :: before, during, rfl, (congrArg List.length
        (List.filterMap_cons_none hoperation)).trans hlength⟩
    | some op =>
      have hrest : begun (e :: rest) = op :: begun rest := List.filterMap_cons_some hoperation
      rw [hrest] at h
      cases t with
      | zero =>
        cases e with
        | begin o' =>
          obtain rfl := Option.some.inj hoperation
          obtain rfl := Option.some.inj h
          exact ⟨[], rest, rfl, rfl⟩
        | _ => cases hoperation
      | succ t =>
        obtain ⟨before, during, rfl, hlength⟩ := ih h
        exact ⟨e :: before, during, rfl, (congrArg List.length
          (List.filterMap_cons_some hoperation)).trans (congrArg (· + 1) hlength)⟩

section

variable [Balance α] (site : Site) (cloud : Cloud) (files : Files) (quotas : Option (Quotas α))
  {events before during : List Event} {o : Operation}

/-- A ticket that has not been given out has no turns. -/
theorem turnsOf_of_unknown (he : ∀ e ∈ events, e.Orderly)
    (ht : ((fresh site cloud files quotas).after events).nextTicket ≤ t) :
    ((fresh site cloud files quotas).after events).world.journal.turnsOf t = [] := by
  refine List.filter_eq_nil_iff.mpr fun x hx ↦ ?_
  obtain ⟨⟨⟨o, ho, -⟩, -⟩, -⟩ := (kept_after site cloud files quotas he).heard x hx
  have hlt : x.brief.ticket < (begun events).length := (List.getElem?_eq_some_iff.mp ho).1
  have hnext := nextTicket_after site cloud files quotas events
  have hne : x.brief.ticket ≠ t := Nat.ne_of_lt (Nat.lt_of_lt_of_le hlt (hnext ▸ ht))
  simpa using hne

/-- A call is carried at any moment after it has begun. -/
theorem carries_after (he : ∀ e ∈ before ++ .begin o :: during, e.Orderly) (ho : o.Discovers) :
    ((fresh site cloud files quotas).after (before ++ .begin o :: during)).Carries o
      (((fresh site cloud files quotas).after before).world.refreshDue site)
      ((fresh site cloud files quotas).after before).nextTicket := by
  induction during using List.reverseRecOn with
  | nil =>
    have hbefore : before <+: before ++ [.begin o] := List.prefix_append _ _
    have htracked := tracked_after site cloud files quotas before
    have hbegun := carries_begin (sound_after site cloud files quotas he hbefore)
      htracked.fresh_activity (outcome?_eq_none_of_le htracked (Nat.le_refl _))
      (turnsOf_of_unknown site cloud files quotas (fun e h ↦ he e (hbefore.subset h))
        (Nat.le_refl _))
      (tells_lore _ hbefore _ (Nat.le_refl _))
      (asked_lore site cloud files quotas (List.prefix_refl _) o rfl) ho
    rw [((fresh site cloud files quotas).site_after before).1] at hbegun
    rw [after_concat]
    exact hbegun
  | append_singleton earlier e ih =>
    have hsplit : before ++ .begin o :: (earlier ++ [e]) =
        before ++ .begin o :: earlier ++ [e] := by
      simp
    have hearlier : before ++ .begin o :: earlier <+: before ++ .begin o :: (earlier ++ [e]) :=
      hsplit ▸ List.prefix_append _ _
    rw [hsplit, after_concat]
    refine (ih fun x hx ↦ he x (hearlier.subset hx)).step
      (sound_after site cloud files quotas he hearlier) (tells_lore _ hearlier)
      (asked_lore site cloud files quotas (hsplit ▸ List.prefix_refl _)) ?_
    rw [after_append]
    exact lt_nextTicket_after _ o earlier

/-- Every call that discovers ends by its turns, in any history. -/
theorem ends_after (he : ∀ e ∈ events, e.Orderly) :
    (fresh site cloud files quotas).EndsByTurns events := by
  rintro before o during rfl ho outcome houtcome
  cases carries_after site cloud files quotas he ho with
  | underway activity none turns => cases none.symm.trans houtcome
  | ended activity ended turns =>
    obtain rfl := Option.some.inj (ended.symm.trans houtcome)
    rw [((fresh site cloud files quotas).site_after _).1] at turns
    exact turns

theorem carries_of_begun (he : ∀ e ∈ events, e.Orderly) (ho : (begun events)[t]? = some o)
    (hd : o.Discovers) :
    ∃ due, ((fresh site cloud files quotas).after events).Carries o due t := by
  obtain ⟨before, during, rfl, hlength⟩ := exists_begin ho
  have hticket := (nextTicket_after site cloud files quotas before).trans hlength
  exact ⟨_, hticket ▸ carries_after site cloud files quotas he hd⟩

/-- What a call is done with, unless it was an early refresh. -/
theorem endsWith_of_done (he : ∀ e ∈ events, e.Orderly) (ho : (begun events)[t]? = some o)
    (hd : o.Discovers) (hearly : o ≠ .refresh)
    (hdone : ((fresh site cloud files quotas).after events).outcome? t = some .done) :
    o.EndsWith site .done
      (((fresh site cloud files quotas).after events).world.journal.turnsOf t) := by
  obtain ⟨due, hcarries⟩ := carries_of_begun site cloud files quotas he ho hd
  cases hcarries with
  | underway activity none turns => cases none.symm.trans hdone
  | ended activity ended turns =>
    obtain rfl := Option.some.inj (ended.symm.trans hdone)
    rw [((fresh site cloud files quotas).site_after events).1] at turns
    refine turns.resolve_left ?_
    rintro ⟨honce, -⟩
    cases honce
    exact hearly rfl

/-- The call that has an outcome at some moment of a history. -/
theorem begun_of_outcome? (hbefore : before <+: events) {outcome : Outcome}
    (h : ((fresh site cloud files quotas).after before).outcome? t = some outcome) :
    (begun before)[t]? = (begun events)[t]? := by
  have hlt : t < ((fresh site cloud files quotas).after before).nextTicket := by
    by_contra hle
    rw [outcome?_eq_none_of_le (tracked_after site cloud files quotas before)
      (Nat.le_of_not_lt hle)] at h
    cases h
  have hnext := nextTicket_after site cloud files quotas before
  obtain ⟨later, rfl⟩ := hbefore
  exact (begun_of_lt (hnext ▸ hlt) later).symm

/-- A call with just one cycle has entered no turn as long as it has no outcome. -/
theorem turnsOf_of_undone (he : ∀ e ∈ before, e.Orderly) (hbefore : before <+: events)
    (ho : (begun events)[t]? = some o) (hone : o.OneCycle)
    (hnone : ((fresh site cloud files quotas).after before).outcome? t = none) :
    ((fresh site cloud files quotas).after before).world.journal.turnsOf t = [] := by
  rcases Nat.lt_or_ge t ((fresh site cloud files quotas).after before).nextTicket with ht | ht
  · have hlt : t < (begun before).length :=
      nextTicket_after site cloud files quotas before ▸ ht
    obtain ⟨later, rfl⟩ := hbefore
    rw [begun_of_lt hlt] at ho
    obtain ⟨due, hcarries⟩ := carries_of_begun site cloud files quotas he ho (Or.inl hone)
    cases hcarries with
    | underway activity outcome turns => exact turns.turns_eq_nil hone
    | ended activity outcome turns => cases hnone.symm.trans outcome
  · exact turnsOf_of_unknown site cloud files quotas he ht

/-- The step by which a call with just one cycle is done enters the turn of that and no other. -/
theorem turn_of_done {e : Event} (he : ∀ x ∈ events ++ [e], x.Orderly)
    (ho : (begun (events ++ [e]))[t]? = some o) (hone : o.OneCycle) (hearly : o ≠ .refresh)
    (hnone : ((fresh site cloud files quotas).after events).outcome? t = none)
    (hdone : ((fresh site cloud files quotas).after (events ++ [e])).outcome? t = some .done) :
    ∃ x, ((fresh site cloud files quotas).after (events ++ [e])).world.journal.turns =
        ((fresh site cloud files quotas).after events).world.journal.turns ++ [x] ∧
      x.brief.ticket = t ∧ o.cycles site = [x.brief.cycle] ∧ x.result = .ok () := by
  have hshort : events <+: events ++ [e] := List.prefix_append _ _
  have hearlier : ∀ x ∈ events, x.Orderly := fun x hx ↦ he x (hshort.subset hx)
  obtain ⟨x, hx, hcycle, hresult⟩ :=
    (endsWith_of_done site cloud files quotas he ho (Or.inl hone) hearly hdone).of_oneCycle hone
  have hempty := turnsOf_of_undone site cloud files quotas hearlier hshort ho hone hnone
  have hmem : x ∈ Journal.turnsOf _ t := hx.symm ▸ List.mem_singleton_self x
  rw [after_concat] at hdone hx ⊢
  have hmoved := moved_of_outcome (sound_after site cloud files quotas he hshort)
    (tells_lore _ hshort) (asked_lore site cloud files quotas (List.prefix_refl _)) hnone hdone
  refine ⟨x, hmoved.turns_eq (hx.trans (congrArg (· ++ [x]) hempty).symm), ?_, hcycle, ?_⟩
  · simpa using List.of_mem_filter hmem
  · cases hr : x.result with
    | ok => rfl
    | error fault =>
      rw [hr] at hresult
      cases hresult

end

end NodeFleet.Fleet
