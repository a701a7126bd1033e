import NodeFleet.Proofs.Counterparts
import NodeFleet.Proofs.Failure
/-!
Two fleets side by side, on one of which an activity carries on what a call does on the other. All
the other activities are the same on both, under names of their own; as long as none of them comes
to a cycle, whatever else happens keeps the fleets together and touches neither the activity nor the
call.
-/

set_option autoImplicit false
set_option relaxedAutoImplicit false

namespace NodeFleet.Fleet

open NodeFleet.Discovery NodeFleet.Quota

variable {α : Type}

/-! ### Lines for sizes -/

/-- Whether only activities before the ticket stand in lines for sizes. -/
def World.Queues (w : World α) (n : Ticket) : Prop :=
  ∀ (i : Nat) c, w.cells[i]? = some c → ∀ x ∈ c.line, x < n

namespace World.Queues

variable {w : World α} {n : Ticket}

theorem changeCell (h : w.Queues n) (g : NodeGroup) {f : SizeCell → SizeCell}
    (hf : ∀ c : SizeCell, (∀ x ∈ c.line, x < n) → ∀ x ∈ (f c).line, x < n) :
    (w.changeCell g f).Queues n := by
  intro i c hc
  have hmodified : (w.cells.modify g.serial f)[i]? = some c := hc
  rw [Array.getElem?_modify] at hmodified
  split_ifs at hmodified
  · obtain ⟨old, hold, rfl⟩ := Option.map_eq_some_iff.mp hmodified
    exact hf old (h i old hold)
  · exact h i c hmodified

theorem leaveLine (h : w.Queues n) (g : NodeGroup) (t : Ticket) : (w.leaveLine g t).Queues n :=
  h.changeCell g fun _ hc x hx ↦ hc x (List.mem_of_mem_filter hx)

theorem joinLine (h : w.Queues n) (g : NodeGroup) {t : Ticket} (ht : t < n) :
    (w.joinLine g t).Queues n := by
  refine h.changeCell g fun c hc x hx ↦ ?_
  rcases List.mem_append.mp hx with hold | hnew
  · exact hc x hold
  · obtain rfl := List.mem_singleton.mp hnew
    exact ht

/-- Names that nobody there bears change nothing. -/
theorem matching (h : w.Queues n) {name : Ticket → Ticket} (hname : ∀ x < n, name x = x) :
    w.Matches name w := by
  have hcells : w.cells.map (SizeCell.under name) = w.cells := by
    refine Array.ext_getElem? fun i ↦ ?_
    rw [Array.getElem?_map]
    cases hcell : w.cells[i]? with
    | none => rfl
    | some c =>
      have hline : c.line.map name = c.line :=
        (List.map_congr_left fun x hx ↦ hname x (h i c hcell x hx)).trans (List.map_id _)
      exact congrArg some (congrArg (fun line ↦ { c with line }) hline)
  refine ⟨w.gate, w.journal, ?_⟩
  unfold World.under
  rw [hcells]

variable [Balance α]

theorem borne (n : Ticket) : Borne fun w w' : World α ↦ w.Queues n → w'.Queues n where
  refl _ h := h
  trans h h' hw := h' (h hw)
  attempt w resourceGroup q h := by
    obtain ⟨cloud, quotas, heq⟩ := w.attempt_eq resourceGroup q
    rw [heq]
    exact h
  newGroup w c period h := by
    intro i cell hcell
    have hpushed : (w.cells.push .empty)[i]? = some cell := hcell
    rw [Array.getElem?_push] at hpushed
    split_ifs at hpushed
    · obtain rfl := Option.some.inj hpushed
      exact fun x hx ↦ absurd hx List.not_mem_nil
    · exact h i cell hpushed
  books _ _ _ _ _ _ h := h

theorem pollAsking (h : w.Queues n) (site : Site) (g : NodeGroup) (t : Ticket) (i : Inquiry) :
    (w.pollAsking site g t i).1.Queues n := by
  have hasked := (borne n).pollInquiry w site (.scaleSet g.name) i h
  unfold World.pollAsking
  rcases hpoll : w.pollInquiry site (.scaleSet g.name) i with ⟨w', i' | e | s⟩
  · rw [hpoll] at hasked
    exact hasked
  · rw [hpoll] at hasked
    exact hasked.leaveLine g t
  · rw [hpoll] at hasked
    have hrecorded : (w'.recordSize g s.capacity).Queues n := hasked.changeCell g fun _ hc ↦ hc
    exact hrecorded.leaveLine g t

theorem pollSize (h : w.Queues n) (site : Site) (g : NodeGroup) (t : Ticket) (phase : SizePhase) :
    (w.pollSize site g t phase).1.Queues n := by
  cases phase with
  | asking i => exact h.pollAsking site g t i
  | queued =>
    dsimp only [World.pollSize]
    split_ifs
    · cases w.knownSize? g with
      | some size => exact h.leaveLine g t
      | none => exact h.pollAsking site g t _
    · exact h

end World.Queues

/-- Nobody stands in a line for a size who has not begun. -/
theorem queues_step [Balance α] {f : Fleet α} (h : f.world.Queues f.nextTicket) (e : Event) :
    (f.step e).world.Queues (f.step e).nextTicket := by
  cases e with
  | begin o =>
    have hlater : f.world.Queues (f.nextTicket + 1) := fun i c hc x hx ↦
      Nat.lt_succ_of_lt (h i c hc x hx)
    show (f.begin o).world.Queues (f.begin o).nextTicket
    rw [nextTicket_begin]
    refine (World.Queues.borne (f.nextTicket + 1)).begin f (fun g _ hw ↦ ?_) hlater
    exact (hw.joinLine g (Nat.lt_succ_self _)).pollSize f.site g f.nextTicket .queued
  | poll t =>
    have hnext : (f.step (.poll t)).nextTicket = f.nextTicket := (f.site_step (.poll t)).2
    rw [hnext]
    exact (World.Queues.borne f.nextTicket).poll f
      (fun g phase _ hw ↦ hw.pollSize f.site g t phase) h
  | stop t =>
    have hnext : (f.step (.stop t)).nextTicket = f.nextTicket := (f.site_step (.stop t)).2
    rw [hnext]
    exact (World.Queues.borne f.nextTicket).stop f t h
  | account change =>
    show (f.world.changeAccount change).Queues f.nextTicket
    unfold World.changeAccount
    split
    · exact h
    · exact h
  | register c => exact (World.Queues.borne f.nextTicket).register f.world c h
  | unregister name => exact (World.Queues.borne f.nextTicket).unregister f.world name h
  | replace cs instances =>
    exact (World.Queues.borne f.nextTicket).replace f.world cs instances h
  | _ => exact h

theorem Reachable.queues [Balance α] {f : Fleet α} (hf : f.Reachable) :
    f.world.Queues f.nextTicket := by
  obtain ⟨site, cloud, files, quotas, events, rfl⟩ := hf
  induction events using List.reverseRecOn with
  | nil => exact fun i c hc ↦ by cases hc
  | append_singleton before e ih =>
    rw [after_concat]
    exact queues_step ih e

/-! ### Steps of one activity -/

/-- A fleet before and after a step of the activity of a ticket, and what the step comes to. -/
structure Advances (t : Ticket) (p : Step α) (f f' : Fleet α) : Prop where
  site : f'.site = f.site
  world : f'.world = p.1
  activity : f'.activity? t = match p.2 with
    | .waiting a => some a
    | .finished _ => none
  outcome : f'.outcome? t = match p.2 with
    | .waiting _ => none
    | .finished o => some o
  others : ∀ x ≠ t, f'.activity? x = f.activity? x ∧ f'.outcome? x = f.outcome? x

theorem advances_settle {f : Fleet α} {t : Ticket} {a : Activity} (ha : f.activity? t = some a)
    (hnone : f.outcome? t = none) (p : Step α) : Advances t p f (f.settle t p) where
  site := f.site_settle t p
  world := f.world_settle t p
  activity := (activity?_settle ha p t).trans (if_pos rfl)
  outcome := by
    refine (f.outcome?_settle t t p).trans ?_
    rw [hnone, Option.none_or]
    rcases p with ⟨w, a' | o⟩
    · rfl
    · exact if_pos rfl
  others x hx := by
    refine ⟨by rw [activity?_settle ha, if_neg hx], ?_⟩
    rw [outcome?_settle]
    rcases p with ⟨w, a' | o⟩
    · exact Option.or_none
    · exact (congrArg _ (if_neg hx.symm)).trans Option.or_none

variable [Balance α]

theorem advances_begin {f : Fleet α} (hfresh : f.activity? f.nextTicket = none)
    (hnone : f.outcome? f.nextTicket = none) (o : Operation) :
    Advances f.nextTicket (f.world.startOperation f.site f.nextTicket o) f (f.begin o) where
  site := f.site_begin o
  world := f.world_begin o
  activity := activity?_begin_self hfresh
  outcome := by
    refine (f.outcome?_begin o f.nextTicket).trans ?_
    rw [hnone, Option.none_or]
    rcases f.world.startOperation f.site f.nextTicket o with ⟨w, a | x⟩
    · rfl
    · exact if_pos rfl
  others x hx := by
    refine ⟨f.activity?_begin_of_ne o hx, ?_⟩
    rw [outcome?_begin]
    split
    · exact Option.or_none
    · rw [if_neg hx.symm, Option.or_none]

theorem advances_poll {f : Fleet α} {t : Ticket} {a : Activity} (ha : f.activity? t = some a)
    (hnone : f.outcome? t = none) :
    Advances t (f.world.pollActivity f.site t a) f (f.poll t) := by
  unfold Fleet.poll
  rw [ha]
  exact advances_settle ha hnone _

/-! ### Fleets with the same activities -/

/-- Two fleets on which all goes on alike, under names of their own, but for one activity. -/
structure Alongside (name : Ticket → Ticket) (t : Ticket) (r s : Fleet α) : Prop where
  site : s.site = r.site
  worlds : r.world.Matches name s.world
  activities : ∀ x ≠ t, s.activity? (name x) = r.activity? x
  outcomes : ∀ x ≠ t, s.outcome? (name x) = r.outcome? x
  /-- None of the others comes to a cycle. -/
  quiet : ∀ x ≠ t, ∀ a, r.activity? x = some a → a.cycles r.site = []

/-- An event that is no writer's: it begins no cycle and does not touch the registry. -/
def Event.Abstains (site : Site) : Event → Prop
  | begin o => o.cycles site = []
  | poll _ => True
  | elapse _ => True
  | account _ => True
  | line _ => True
  | files _ => True
  | _ => False

/-- The same event with other names. -/
def Event.renamed (name : Ticket → Ticket) : Event → Event
  | poll t => poll (name t)
  | e => e

variable {name : Ticket → Ticket} {t t' x : Ticket} {r r' s s' : Fleet α}

namespace Alongside

omit [Balance α]

/-- The fleets stay together when the activity goes on, and the call. -/
theorem own (h : Alongside name t r s) (hsite : r'.site = r.site) (hsite' : s'.site = s.site)
    (hworlds : r'.world.Matches name s'.world)
    (hothers : ∀ x ≠ t, r'.activity? x = r.activity? x ∧ r'.outcome? x = r.outcome? x)
    (hothers' : ∀ x ≠ t, s'.activity? (name x) = s.activity? (name x) ∧
      s'.outcome? (name x) = s.outcome? (name x)) : Alongside name t r' s' where
  site := by rw [hsite', h.site, hsite]
  worlds := hworlds
  activities x hx := by rw [(hothers' x hx).1, h.activities x hx, (hothers x hx).1]
  outcomes x hx := by rw [(hothers' x hx).2, h.outcomes x hx, (hothers x hx).2]
  quiet x hx a ha := by
    rw [(hothers x hx).1] at ha
    rw [hsite]
    exact h.quiet x hx a ha

/-- The fleets stay together when the same other activity goes on on both. -/
theorem other (h : Alongside name t r s) (hname : Function.Injective name)
    {gate : List Ticket} {journal : Journal} {p p' : Step α}
    (hadvances : Advances x p r r') (hadvances' : Advances (name x) p' s s')
    (hsame : Namesake r.site name gate journal r.world p p') : Alongside name t r' s' := by
  obtain ⟨rfl, -, hquiet⟩ := hsame
  refine ⟨?_, ⟨gate, journal, ?_⟩, ?_, ?_, ?_⟩
  · rw [hadvances'.site, h.site, hadvances.site]
  · rw [hadvances'.world, hadvances.world]
  · intro y hy
    by_cases hyx : y = x
    · rw [hyx, hadvances'.activity, hadvances.activity]
    · rw [(hadvances'.others _ (hname.ne hyx)).1, h.activities y hy, (hadvances.others y hyx).1]
  · intro y hy
    by_cases hyx : y = x
    · rw [hyx, hadvances'.outcome, hadvances.outcome]
    · rw [(hadvances'.others _ (hname.ne hyx)).2, h.outcomes y hy, (hadvances.others y hyx).2]
  · intro y hy a ha
    rw [hadvances.site]
    by_cases hyx : y = x
    · obtain ⟨w, a' | o⟩ := p
      · rw [hyx, hadvances.activity] at ha
        obtain rfl := Option.some.inj ha
        exact hquiet _ rfl
      · rw [hyx, hadvances.activity] at ha
        cases ha
    · rw [(hadvances.others y hyx).1] at ha
      exact h.quiet y hy a ha

end Alongside

/-- What happens on both fleets besides the activity and the call. -/
structure Passed (name : Ticket → Ticket) (t t' : Ticket) (r s r' s' : Fleet α) : Prop where
  alongside : Alongside name t r' s'
  activity : r'.activity? t = r.activity? t
  activity' : s'.activity? t' = s.activity? t'
  outcome' : s'.outcome? t' = s.outcome? t'
  gate : r'.world.gate = r.world.gate
  gate' : s'.world.gate = s.world.gate
  unchanged : r.world.Unchanged r'.world

omit [Balance α]

theorem passed_of_other (h : Alongside name t r s) (hname : Function.Injective name)
    {journal : Journal} {p p' : Step α} (hx : t ≠ x) (hx' : t' ≠ name x)
    (hadvances : Advances x p r r') (hadvances' : Advances (name x) p' s s')
    (hsame : Namesake r.site name s.world.gate journal r.world p p') :
    Passed name t t' r s r' s' where
  alongside := h.other hname hadvances hadvances' hsame
  activity := (hadvances.others t hx).1
  activity' := (hadvances'.others t' hx').1
  outcome' := (hadvances'.others t' hx').2
  gate := by rw [hadvances.world, hsame.asked.gate]
  gate' := by
    rw [hadvances'.world, hsame.same]
    rfl
  unchanged := by
    rw [hadvances.world]
    exact hsame.asked.unchanged

theorem passed_of_worlds (h : Alongside name t r s) {w w' : World α} (hworlds : w.Matches name w')
    (hgate : w.gate = r.world.gate) (hgate' : w'.gate = s.world.gate)
    (hunchanged : r.world.Unchanged w) :
    Passed name t t' r s { r with world := w } { s with world := w' } where
  alongside := ⟨h.site, hworlds, h.activities, h.outcomes, h.quiet⟩
  activity := rfl
  activity' := rfl
  outcome' := rfl
  gate := hgate
  gate' := hgate'
  unchanged := hunchanged

namespace World.Matches

variable {w w' : World α} (h : w.Matches name w')

include h

theorem now : w'.now = w.now := by
  obtain ⟨gate, journal, rfl⟩ := h
  rfl

theorem elapse (millis : Nat) :
    ({ w with now := w.now + millis } : World α).Matches name
      { w' with now := w'.now + millis } := by
  obtain ⟨gate, journal, rfl⟩ := h
  exact ⟨gate, journal, rfl⟩

theorem line (line : Line) :
    ({ w with line } : World α).Matches name { w' with line } := by
  obtain ⟨gate, journal, rfl⟩ := h
  exact ⟨gate, journal, rfl⟩

theorem files (files : Files) :
    ({ w with files } : World α).Matches name { w' with files } := by
  obtain ⟨gate, journal, rfl⟩ := h
  exact ⟨gate, journal, rfl⟩

theorem changeAccount (change : Account → Account) :
    (w.changeAccount change).Matches name (w'.changeAccount change) := by
  obtain ⟨gate, journal, rfl⟩ := h
  have hcloud : (w.under name gate journal).cloud = w.cloud := rfl
  refine ⟨gate, journal, ?_⟩
  unfold World.changeAccount
  rw [hcloud]
  cases w.cloud <;> rfl

end World.Matches

variable [Balance α]

/-- Whatever abstains from writing keeps the fleets together, and leaves the activity and the call
alone. -/
theorem Alongside.step (h : Alongside name t r s) (hr : r.Reachable)
    (hname : Function.Injective name) (hapart : ∀ x ≠ t, name x ≠ t') {e : Event}
    (he : e.Abstains r.site) (hpoll : e ≠ .poll t)
    (hplace : ∀ o, e = .begin o → t ≠ r.nextTicket ∧ name r.nextTicket = s.nextTicket) :
    Passed name t t' r s (r.step e) (s.step (e.renamed (Function.update name t t'))) := by
  obtain ⟨gate, journal, hworld⟩ := h.worlds
  obtain rfl : s.world.gate = gate := congrArg World.gate hworld
  cases e with
  | begin o =>
    -- What begins here takes the next ticket on both fleets, and the one is the name of the other.
    obtain ⟨hne, hnext⟩ := hplace o rfl
    obtain ⟨hfresh, hnone⟩ := hr.fresh
    have hfresh' : s.activity? s.nextTicket = none := by
      rw [← hnext, h.activities _ hne.symm, hfresh]
    have hnone' : s.outcome? s.nextTicket = none := by
      rw [← hnext, h.outcomes _ hne.symm, hnone]
    have hadvances' := advances_begin hfresh' hnone' o
    rw [h.site, hworld, ← hnext] at hadvances'
    exact passed_of_other h hname hne (hapart _ hne.symm).symm (advances_begin hfresh hnone o)
      hadvances' (namesake_startOperation hname r.world r.nextTicket he)
  | poll x =>
    have hx : x ≠ t := fun heq ↦ hpoll (congrArg Event.poll heq)
    show Passed name t t' r s (r.poll x) (s.poll (Function.update name t t' x))
    rw [Function.update_of_ne hx]
    cases hactivity : r.activity? x with
    | none =>
      have hactivity' := (h.activities x hx).trans hactivity
      unfold Fleet.poll
      rw [hactivity, hactivity']
      exact ⟨h, rfl, rfl, rfl, rfl, rfl, .refl _⟩
    | some a =>
      have hnone := hr.outcome?_of_activity hactivity
      have hadvances' := advances_poll ((h.activities x hx).trans hactivity)
        ((h.outcomes x hx).trans hnone)
      rw [h.site, hworld] at hadvances'
      exact passed_of_other h hname hx.symm (hapart x hx).symm (advances_poll hactivity hnone)
        hadvances' (namesake_pollActivity hname r.world x (h.quiet x hx a hactivity))
  | elapse millis =>
    exact passed_of_worlds h (h.worlds.elapse millis) rfl rfl ⟨rfl, rfl, rfl⟩
  | account change =>
    exact passed_of_worlds h (h.worlds.changeAccount change)
      (journal_changeAccount r.world change).2.2 (journal_changeAccount s.world change).2.2
      (World.unchanged_changeAccount r.world change)
  | line line =>
    exact passed_of_worlds h (h.worlds.line line) rfl rfl ⟨rfl, rfl, rfl⟩
  | files files =>
    exact passed_of_worlds h (h.worlds.files files) rfl rfl ⟨rfl, rfl, rfl⟩
  | _ => exact he.elim

end NodeFleet.Fleet
