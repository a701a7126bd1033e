import NodeFleet.Proofs.Continuation
import NodeFleet.Proofs.Queueing
import NodeFleet.Proofs.Ticks
/-!
Refreshes and their interval. A call to refresh looks at the interval when it is made, and not again
when its cycle begins. If it has to wait for the gate, a refresh that comes to success meanwhile
does not keep it from its own cycle: it then refreshes too soon. That happens only through those
that stood in the line of the gate before it. Whatever else has been refreshed, every call that was
due runs one cycle.
-/

set_option autoImplicit false
set_option relaxedAutoImplicit false

namespace NodeFleet.Fleet

open NodeFleet.Discovery NodeFleet.Quota

variable {α : Type} [Balance α]

/-! ### When was the last refresh? -/

/-- What an activity does to the time of the last refresh: it leaves it, or makes it the present. -/
theorem World.tended_refreshedAt (site : Site) (t : Ticket) (now : Nat) (last : Option Nat) :
    Tended site t fun (w : World α) _ ↦
      w.now = now ∧ (w.refreshedAt = last ∨ w.refreshedAt = some now) where
  asking _ := World.asking_of_kept (fun _ _ h ↦ h) fun h ↦ h
  join h := h
  take h := h
  fault _ _ _ _ h := h
  plan {w} _ _ candidates _ h := by
    obtain ⟨cells, hnew⟩ :=
      ({ w with journal := w.journal.settle } : World α).inquired_newGroups candidates
    rw [hnew]
    exact h
  fail h _ _ := h
  conclude h _ _ := h
  noted h := ⟨h.1, Or.inr (congrArg some h.1)⟩

theorem refreshedAt_step (f : Fleet α) (e : Event) :
    (f.step e).world.refreshedAt = f.world.refreshedAt ∨
      (f.step e).world.refreshedAt = some f.world.now := by
  cases e with
  | begin o =>
    show (f.begin o).world.refreshedAt = _ ∨ (f.begin o).world.refreshedAt = _
    rw [world_begin]
    exact ((World.tended_refreshedAt f.site f.nextTicket f.world.now _).begin (fun _ _ h ↦ h) o
      ⟨rfl, Or.inl rfl⟩).2
  | poll t =>
    show (f.poll t).world.refreshedAt = _ ∨ (f.poll t).world.refreshedAt = _
    unfold Fleet.poll
    cases f.activity? t with
    | none => exact Or.inl rfl
    | some a =>
      dsimp only
      rw [world_settle]
      exact ((World.tended_refreshedAt f.site t f.world.now _).poll (a := a) (fun _ _ h ↦ h)
        ⟨rfl, Or.inl rfl⟩).2
  | stop t =>
    refine Or.inl ?_
    show (f.stop t).world.refreshedAt = _
    unfold Fleet.stop
    split
    · rw [world_settle]
      rfl
    · rfl
  | account change => exact Or.inl (World.unchanged_changeAccount f.world change).refreshedAt
  | replace candidates instances =>
    obtain ⟨cells, hnew⟩ := f.world.inquired_newGroups candidates
    refine Or.inl ?_
    show (f.world.replace candidates instances).1.refreshedAt = _
    unfold World.replace
    rw [hnew]
  | _ => exact Or.inl rfl

/-- Whether a refresh has come to success at a moment of a history. -/
def RefreshedAt (f : Fleet α) (events : List Event) (moment : Nat) : Prop :=
  ∃ earlier, earlier <+: events ∧ (f.after earlier).world.refreshedAt = some moment

/-- Whether a refresh has come to success less than an interval ago. -/
def Recent (f : Fleet α) (events : List Event) : Prop :=
  ∃ moment, f.RefreshedAt events moment ∧
    f.site.refreshInterval.outlasts ((f.after events).world.now - moment) = true

section

variable {f : Fleet α} {events before : List Event} {m : Nat}

theorem RefreshedAt.of_prefix (h : f.RefreshedAt before m) (hle : before <+: events) :
    f.RefreshedAt events m := by
  obtain ⟨earlier, hearlier, hm⟩ := h
  exact ⟨earlier, hearlier.trans hle, hm⟩

theorem refreshedAt_concat {e : Event} :
    f.RefreshedAt (events ++ [e]) m ↔
      f.RefreshedAt events m ∨ ((f.after events).step e).world.refreshedAt = some m := by
  constructor
  · rintro ⟨earlier, hearlier, hm⟩
    rcases List.prefix_concat_iff.mp hearlier with rfl | hprefix
    · rw [after_concat] at hm
      exact Or.inr hm
    · exact Or.inl ⟨earlier, hprefix, hm⟩
  · rintro (h | hm)
    · exact h.of_prefix (List.prefix_append _ _)
    · exact ⟨events ++ [e], List.prefix_refl _, by rw [after_concat]; exact hm⟩

/-- No refresh has come to success after the last one, and none after the present. -/
theorem RefreshedAt.le_last (hnone : f.world.refreshedAt = none) (h : f.RefreshedAt events m) :
    ∃ last, (f.after events).world.refreshedAt = some last ∧ m ≤ last ∧
      last ≤ (f.after events).world.now := by
  induction events using List.reverseRecOn generalizing m with
  | nil =>
    obtain ⟨earlier, hearlier, hm⟩ := h
    obtain rfl := List.prefix_nil.mp hearlier
    cases hnone.symm.trans hm
  | append_singleton before e ih =>
    have hlater : (f.after before).world.now ≤ ((f.after before).step e).world.now := by
      rw [now_step]
      exact Nat.le_add_right _ _
    rw [after_concat]
    rcases refreshedAt_concat.mp h with hbefore | hnow
    · obtain ⟨last, hlast, hm, hle⟩ := ih hbefore
      rcases (f.after before).refreshedAt_step e with hsame | hset
      · exact ⟨last, hsame.trans hlast, hm, hle.trans hlater⟩
      · exact ⟨_, hset, hm.trans hle, hlater⟩
    · rcases (f.after before).refreshedAt_step e with hsame | hset
      · obtain ⟨last, hlast, hm, hle⟩ := ih ⟨before, List.prefix_refl _, hsame.symm.trans hnow⟩
        exact ⟨last, hsame.trans hlast, hm, hle.trans hlater⟩
      · exact ⟨_, hset, (Option.some.inj (hnow.symm.trans hset)).le, hlater⟩

/-- A refresh is due just when none has come to success less than an interval ago. -/
theorem recent_iff (hnone : f.world.refreshedAt = none) :
    f.Recent events ↔ (f.after events).world.refreshDue (f.after events).site = false := by
  rw [(f.site_after events).1]
  constructor
  · rintro ⟨m, hm, hrecent⟩
    obtain ⟨last, hlast, hle, -⟩ := hm.le_last hnone
    unfold World.refreshDue
    rw [hlast]
    dsimp only
    cases hpast : f.site.refreshInterval.outlasts ((f.after events).world.now - last) with
    | true => rfl
    | false =>
      have hpast' := Duration.outlasts_of_le hpast
        (Nat.sub_le_sub_left hle (f.after events).world.now)
      rw [hpast'] at hrecent
      cases hrecent
  · intro hdue
    unfold World.refreshDue at hdue
    split at hdue
    · cases hdue
    · rename_i last hlast
      exact ⟨last, ⟨events, List.prefix_refl _, hlast⟩, by simpa using hdue⟩

end

/-! ### Calls to refresh -/

/-- Whether an event gives the gate to a ticket that has not had it yet. -/
def GivesGate (f : Fleet α) (e : Event) (t : Ticket) : Prop :=
  t ∉ f.world.journal.holders ∧ t ∈ (f.step e).world.journal.holders

/-- Whether no call to refresh gets the gate less than an interval after a refresh has come to
success. -/
def KeepsInterval (f : Fleet α) (events : List Event) : Prop :=
  ∀ earlier e t, earlier ++ [e] <+: events → (begun events)[t]? = some .refresh →
    (f.after earlier).GivesGate e t → ¬ f.Recent earlier

/-- Whether an event brings a refresh to success, the first one of the present moment. -/
def Refreshes (f : Fleet α) (e : Event) : Prop :=
  f.world.refreshedAt ≠ some f.world.now ∧ (f.step e).world.refreshedAt = some f.world.now

/-- Whether somebody who stood in the line of the gate before a call to refresh has come to a
refresh while the call waited, less than an interval ago. -/
def Forestalled (f : Fleet α) (before waiting : List Event) : Prop :=
  ∃ u ∈ (f.after before).world.gate, ∃ first, first ++ [.poll u] <+: waiting ∧
    (f.after (before ++ .begin .refresh :: first)).Refreshes (.poll u) ∧
      f.site.refreshInterval.outlasts
        ((f.after (before ++ .begin .refresh :: waiting)).world.now -
          (f.after (before ++ .begin .refresh :: first)).world.now) = true

/-- How a call to refresh goes that is made after `before`. -/
structure RefreshLaw (f : Fleet α) (before during : List Event) : Prop where
  /-- Less than an interval after a refresh the call is over at once and comes to no cycle. -/
  early : f.Recent before →
    (f.after (before ++ [.begin .refresh])).world = (f.after before).world ∧
      (f.after (before ++ [.begin .refresh])).outcome? (f.after before).nextTicket = some .done ∧
        (f.after before).nextTicket ∉
          (f.after (before ++ .begin .refresh :: during)).world.journal.holders
  /-- It begins its cycle at once just when a refresh is due and nobody is at the gate. -/
  atOnce : (f.after before).nextTicket ∈
      (f.after (before ++ [.begin .refresh])).world.journal.holders ↔
    ¬ f.Recent before ∧ (f.after before).world.gate = []
  /-- If it begins its cycle later, it does so less than an interval after a refresh just when it
  has been forestalled. -/
  later : ∀ waiting e, waiting ++ [e] <+: during →
    (f.after (before ++ .begin .refresh :: waiting)).GivesGate e (f.after before).nextTicket →
      e = .poll (f.after before).nextTicket ∧
        (f.Recent (before ++ .begin .refresh :: waiting) ↔ f.Forestalled before waiting)
  /-- Forestalled or not, a call that was due comes to one cycle, and goes by that. -/
  ended : ¬ f.Recent before → ∀ o,
    (f.after (before ++ .begin .refresh :: during)).outcome? (f.after before).nextTicket = some o →
      ∃ x : Turn, (f.after (before ++ .begin .refresh :: during)).world.journal.turnsOf
          (f.after before).nextTicket = [x] ∧
        x.brief.cycle = .auto ∧ o = World.ofResult (fun _ ↦ .done) x.result

section

variable {H : Lore} {f : Fleet α} {t : Ticket}

omit [Balance α] in
/-- Who has had the gate has it still, or has entered a turn. -/
theorem Sound.not_mem_holders (hs : f.Sound H) (hout : ¬ f.world.journal.HeldBy t)
    (hturns : f.world.journal.turnsOf t = []) : t ∉ f.world.journal.holders := by
  have hnone : t ∉ f.world.journal.turns.map fun x ↦ x.brief.ticket := by
    intro hin
    obtain ⟨x, hx, hticket⟩ := List.mem_map.mp hin
    have hmem : x ∈ f.world.journal.turnsOf t := List.mem_filter.mpr ⟨hx, decide_eq_true hticket⟩
    rw [hturns] at hmem
    cases hmem
  intro hin
  rcases hs.kept.gate with hfree | ⟨holder, hheld, -⟩
  · exact hnone (hfree ▸ hin)
  · unfold Journal.HeldBy at hheld
    rw [hheld] at hin
    rcases List.mem_append.mp hin with hturn | hlast
    · exact hnone hturn
    · obtain rfl := List.mem_singleton.mp hlast
      exact hout hheld

/-- Who is not under way any more does not come to the gate. -/
theorem not_mem_holders_after (hout : t ∉ f.world.journal.holders) (hnone : f.activity? t = none)
    (ht : t < f.nextTicket) (events : List Event) :
    t ∉ (f.after events).world.journal.holders := by
  induction events generalizing f with
  | nil => exact hout
  | cons e rest ih =>
    have hrest : (f.step e).activity? t = none ∧ t ∉ (f.step e).world.journal.holders := by
      by_cases hpoll : e = .poll t
      · have hsame : f.step e = f := by
          subst hpoll
          show f.poll t = f
          unfold Fleet.poll
          rw [hnone]
        rw [hsame]
        exact ⟨hnone, hout⟩
      · refine ⟨?_, not_mem_holders_step hout ht hpoll⟩
        by_cases hstop : e = .stop t
        · subst hstop
          show (f.stop t).activity? t = none
          unfold Fleet.stop
          rw [hnone]
          exact hnone
        · exact (activity?_step_of_ne ht hpoll hstop).trans hnone
    refine ih hrest.2 hrest.1 ?_
    rw [(f.site_step e).2]
    exact Nat.lt_add_right _ ht

/-- A call that is due while somebody is at the gate stands in the line behind those
who are there. -/
theorem queues_begin (hfresh : f.activity? f.nextTicket = none)
    (hout : f.nextTicket ∉ f.world.journal.holders) (hs : f.Staffed)
    (hdue : f.world.refreshDue f.site = true) (hgate : f.world.gate ≠ []) :
    (f.begin .refresh).world = f.world.joinGate f.nextTicket ∧
      (f.begin .refresh).Queues .refresh f.world.gate f.nextTicket := by
  obtain ⟨x, rest, hline⟩ := List.exists_cons_of_ne_nil hgate
  obtain ⟨entry, hentry, hticket⟩ := hs.staffed x (hline ▸ List.mem_cons_self)
  have hne : x ≠ f.nextTicket := hticket ▸ Nat.ne_of_lt (hs.known entry hentry)
  have hhead : f.world.gate.head? = some x := by
    rw [hline]
    rfl
  have hstart : f.world.startOperation f.site f.nextTicket .refresh =
      (f.world.joinGate f.nextTicket, .waiting (.discovering .refresh .queued)) := by
    dsimp only [World.startOperation]
    rw [if_pos hdue, World.startErrand_of_held hhead hne]
  have hworld : (f.begin .refresh).world = f.world.joinGate f.nextTicket := by
    rw [world_begin, hstart]
  refine ⟨hworld, ?_, ?_, ?_⟩
  · rw [activity?_begin_self hfresh, hstart]
  · rw [hworld]
    exact ⟨f.world.gate, [], rfl, List.Sublist.refl _⟩
  · rw [hworld]
    exact hout

/-- A call that is due while nobody is at the gate gets it at once. -/
theorem mem_holders_begin (hdue : f.world.refreshDue f.site = true) (hgate : f.world.gate = []) :
    f.nextTicket ∈ (f.begin .refresh).world.journal.holders := by
  have hfirst : (f.world.joinGate f.nextTicket).hasGate f.nextTicket = true := by
    unfold World.hasGate World.joinGate
    rw [hgate]
    exact beq_self_eq_true _
  have hstart : f.world.startOperation f.site f.nextTicket .refresh =
      f.world.startErrand f.site f.nextTicket .refresh := by
    dsimp only [World.startOperation]
    rw [if_pos hdue]
  rw [world_begin, hstart]
  have hheld := (World.Recorded.tended _ f.site f.nextTicket).afterCycle .refresh
    (World.recorded_pollCycle f.site hfirst .auto)
  exact hheld.kept _ (List.mem_append_right _ (List.mem_singleton_self _))

/-- Where the time of the last refresh has changed, some event was the last to change it. -/
theorem exists_refreshes {events : List Event}
    (h : (f.after events).world.refreshedAt ≠ f.world.refreshedAt) :
    ∃ first e, first ++ [e] <+: events ∧ (f.after first).Refreshes e ∧
      (f.after events).world.refreshedAt = some (f.after first).world.now ∧
        ((f.after first).step e).world.refreshedAt ≠ (f.after first).world.refreshedAt := by
  induction events using List.reverseRecOn with
  | nil => exact absurd rfl h
  | append_singleton before e ih =>
    rw [after_concat] at h ⊢
    by_cases hsame : ((f.after before).step e).world.refreshedAt =
      (f.after before).world.refreshedAt
    · obtain ⟨first, e', hprefix, hrefreshes, hlast, hchanged⟩ := ih (hsame ▸ h)
      exact ⟨first, e', hprefix.trans (List.prefix_append _ _), hrefreshes, hsame.trans hlast,
        hchanged⟩
    · have hset := ((f.after before).refreshedAt_step e).resolve_left hsame
      exact ⟨before, e, List.prefix_refl _, ⟨fun h ↦ hsame (hset.trans h.symm), hset⟩, hset, hsame⟩

/-- A call that is not due is over at once. -/
theorem begin_of_early (hfresh : f.activity? f.nextTicket = none)
    (hnone : f.outcome? f.nextTicket = none) (hdue : f.world.refreshDue f.site = false) :
    (f.begin .refresh).world = f.world ∧ (f.begin .refresh).activity? f.nextTicket = none ∧
      (f.begin .refresh).outcome? f.nextTicket = some .done := by
  have hstart : f.world.startOperation f.site f.nextTicket .refresh =
      (f.world, .finished .done) := by
    dsimp only [World.startOperation]
    rw [hdue]
    rfl
  refine ⟨?_, ?_, ?_⟩
  · rw [world_begin, hstart]
  · rw [activity?_begin_self hfresh, hstart]
  · rw [outcome?_begin, hnone, hstart]
    exact if_pos rfl

/-- As long as it does not get the gate, an activity goes on standing in the line. -/
theorem Queues.after {errand : Errand} {ahead : List Ticket} (h : f.Queues errand ahead t)
    (hf : f.Reachable) {events : List Event} (hout : t ∉ (f.after events).world.journal.holders) :
    (f.after events).Queues errand ahead t := by
  induction events using List.reverseRecOn with
  | nil => exact h
  | append_singleton before e ih =>
    rw [after_concat] at hout ⊢
    have hbefore := ih fun hin ↦ hout ((holders_step _ e).1 t hin)
    by_cases hpoll : e = .poll t
    · subst hpoll
      exact (hbefore.poll.resolve_right hout).1
    · exact hbefore.step (hf.after before).staffed hpoll

/-- A call that stood in the line until now begins its cycle less than an interval after a refresh
just when it has been forestalled. -/
theorem recent_iff_forestalled {before waiting : List Event} (hf : f.Reachable)
    (hnone : f.world.refreshedAt = none) (hdue : ¬ f.Recent before)
    (hs : ∀ first, first <+: waiting → (f.after (before ++ .begin .refresh :: first)).Sound H)
    (hfirst : ((f.after before).begin .refresh).world.refreshedAt =
      (f.after before).world.refreshedAt)
    (hqueues : ((f.after before).begin .refresh).Queues .refresh (f.after before).world.gate t)
    (hout : t ∉ (f.after (before ++ .begin .refresh :: waiting)).world.journal.holders) :
    f.Recent (before ++ .begin .refresh :: waiting) ↔ f.Forestalled before waiting := by
  have hafter : ∀ later, f.after (before ++ .begin .refresh :: later) =
      ((f.after before).begin .refresh).after later := fun later ↦ after_append f before _
  have hsplit : ∀ later, before ++ .begin .refresh :: later <+:
      before ++ .begin .refresh :: waiting ↔ later <+: waiting := by
    intro later
    rw [List.prefix_append_right_inj, List.cons_prefix_cons]
    exact and_iff_right rfl
  have hqueued : ∀ first, first <+: waiting →
      (f.after (before ++ .begin .refresh :: first)).Queues .refresh (f.after before).world.gate t ∧
        t ∉ (f.after (before ++ .begin .refresh :: first)).world.journal.holders := by
    rintro first ⟨rest, rfl⟩
    have hheld : t ∉ (f.after (before ++ .begin .refresh :: first)).world.journal.holders := by
      intro hin
      refine hout ?_
      rw [hafter] at hin ⊢
      rw [after_append]
      exact mem_holders_after hin rest
    refine ⟨?_, hheld⟩
    rw [hafter] at hheld ⊢
    exact hqueues.after ((hf.after before).after [.begin .refresh]) hheld
  constructor
  · intro hrecent
    have hlate := (recent_iff hnone).mp hrecent
    unfold World.refreshDue at hlate
    split at hlate
    · cases hlate
    · rename_i last hlast
      have houtlasts : f.site.refreshInterval.outlasts
          ((f.after (before ++ .begin .refresh :: waiting)).world.now - last) = true := by
        rw [(f.site_after _).1] at hlate
        simpa using hlate
      -- the last refresh is not the one that the call knew of when it was due
      have hchanged : (((f.after before).begin .refresh).after waiting).world.refreshedAt ≠
          ((f.after before).begin .refresh).world.refreshedAt := by
        rw [← hafter, hlast, hfirst]
        intro hsame
        refine hdue ⟨last, ⟨before, List.prefix_refl _, hsame.symm⟩, ?_⟩
        cases hpast : f.site.refreshInterval.outlasts ((f.after before).world.now - last) with
        | true => rfl
        | false =>
          have hlater : (f.after before).world.now ≤
              (f.after (before ++ .begin .refresh :: waiting)).world.now := by
            rw [after_append, now_after (f.after before)]
            exact Nat.le_add_right _ _
          rw [Duration.outlasts_of_le hpast (Nat.sub_le_sub_right hlater last)] at houtlasts
          cases houtlasts
      obtain ⟨first, e, hprefix, hrefreshes, hset, hstep⟩ := exists_refreshes hchanged
      have hearlier : first <+: waiting := (List.prefix_append _ _).trans hprefix
      rw [← hafter] at hrefreshes hstep
      rw [← hafter, ← hafter] at hset
      obtain rfl := Option.some.inj (hlast.symm.trans hset)
      have hunheld :
          t ∉ ((f.after (before ++ .begin .refresh :: first)).step e).world.journal.holders := by
        have hnext := (hqueued _ hprefix).2
        rw [hafter, after_concat, ← hafter] at hnext
        exact hnext
      obtain ⟨u, hu, rfl⟩ := (hqueued first hearlier).1.poll_of_refreshedAt
        (hf.after _).staffed (hs first hearlier) hunheld hstep
      exact ⟨u, hu, first, hprefix, hrefreshes, houtlasts⟩
  · rintro ⟨u, -, first, hprefix, ⟨-, hset⟩, houtlasts⟩
    refine ⟨_, ⟨before ++ .begin .refresh :: (first ++ [.poll u]), (hsplit _).mpr hprefix, ?_⟩,
      houtlasts⟩
    rw [hafter, after_concat, ← hafter]
    exact hset

end

section

variable (site : Site) (cloud : Cloud) (files : Files) (quotas : Option (Quotas α))
  {before during : List Event}

/-- A call that is due while somebody is at the gate gets it by a poll of its own, less than an
interval after a refresh just when it has been forestalled. -/
theorem forestalled_of_late (he : ∀ e ∈ before ++ .begin .refresh :: during, e.Orderly)
    (hdue : ((fresh site cloud files quotas).after before).world.refreshDue
      ((fresh site cloud files quotas).after before).site = true)
    (hgate : ((fresh site cloud files quotas).after before).world.gate ≠ [])
    (hout : ((fresh site cloud files quotas).after before).nextTicket ∉
      ((fresh site cloud files quotas).after before).world.journal.holders)
    {waiting : List Event} {e : Event} (hwaiting : waiting ++ [e] <+: during)
    (hgives :
      ((fresh site cloud files quotas).after (before ++ .begin .refresh :: waiting)).GivesGate e
        ((fresh site cloud files quotas).after before).nextTicket) :
    e = .poll ((fresh site cloud files quotas).after before).nextTicket ∧
      ((fresh site cloud files quotas).Recent (before ++ .begin .refresh :: waiting) ↔
        (fresh site cloud files quotas).Forestalled before waiting) := by
  have hreachable : ((fresh site cloud files quotas).after before).Reachable :=
    ⟨site, cloud, files, quotas, before, rfl⟩
  have hafter : ∀ later,
      (fresh site cloud files quotas).after (before ++ .begin .refresh :: later) =
        (((fresh site cloud files quotas).after before).begin .refresh).after later :=
    fun later ↦ after_append _ before _
  obtain ⟨hworld, hqueues⟩ := queues_begin hreachable.fresh.1 hout hreachable.staffed hdue hgate
  refine ⟨by_contra fun hpoll ↦ ?_, ?_⟩
  · have hbegun := hreachable.after [.begin .refresh]
    have hstands := hqueues.after hbegun (hafter waiting ▸ hgives.1)
    refine (hstands.step (hbegun.after waiting).staffed hpoll).out ?_
    rw [← hafter]
    exact hgives.2
  · have hrecent : ¬ (fresh site cloud files quotas).Recent before := by
      rw [recent_iff rfl, Bool.not_eq_false]
      exact hdue
    refine recent_iff_forestalled ⟨site, cloud, files, quotas, [], rfl⟩ rfl hrecent
      (fun first hfirst ↦ sound_after site cloud files quotas he ?_) ?_ hqueues hgives.1
    · rw [List.prefix_append_right_inj, List.cons_prefix_cons]
      exact ⟨rfl, hfirst.trans ((List.prefix_append _ _).trans hwaiting)⟩
    · rw [hworld]
      rfl

/-- A call to refresh is over at once if a refresh has come to success less than an interval ago,
and otherwise comes to one cycle; that begins less than an interval after a refresh just when
somebody who stood in the line of the gate before the call has refreshed while it waited. -/
theorem refresh_law_after (he : ∀ e ∈ before ++ .begin .refresh :: during, e.Orderly) :
    (fresh site cloud files quotas).RefreshLaw before during := by
  have hbefore : before <+: before ++ .begin .refresh :: during := List.prefix_append _ _
  have hs := sound_after site cloud files quotas he hbefore
  have hreachable : ((fresh site cloud files quotas).after before).Reachable :=
    ⟨site, cloud, files, quotas, before, rfl⟩
  obtain ⟨hfresh, hnone⟩ := hreachable.fresh
  have hturns := turnsOf_of_unknown site cloud files quotas
    (fun e h ↦ he e (hbefore.subset h)) (Nat.le_refl _)
  have hout := hs.not_mem_holders (hs.unknown _ (Nat.le_refl _)) hturns
  have hrecent : (fresh site cloud files quotas).Recent before ↔ _ := recent_iff rfl
  have hafter : ∀ later,
      (fresh site cloud files quotas).after (before ++ .begin .refresh :: later) =
        (((fresh site cloud files quotas).after before).begin .refresh).after later :=
    fun later ↦ after_append _ before _
  have hearly : (fresh site cloud files quotas).Recent before → ∀ later,
      ((fresh site cloud files quotas).after before).nextTicket ∉
        ((fresh site cloud files quotas).after
          (before ++ .begin .refresh :: later)).world.journal.holders := by
    intro hr later
    obtain ⟨hworld, hactivity, -⟩ := begin_of_early hfresh hnone (hrecent.mp hr)
    rw [hafter]
    refine not_mem_holders_after (hworld ▸ hout) hactivity ?_ later
    rw [nextTicket_begin]
    exact Nat.lt_succ_self _
  have hone : (fresh site cloud files quotas).after (before ++ [.begin .refresh]) =
      ((fresh site cloud files quotas).after before).begin .refresh := hafter []
  refine ⟨fun hr ↦ ?_, ⟨fun hin ↦ ?_, fun ⟨hr, hgate⟩ ↦ ?_⟩, fun waiting e hwaiting hgives ↦ ?_,
    fun hr o ho ↦ ?_⟩
  · obtain ⟨hworld, -, hdone⟩ := begin_of_early hfresh hnone (hrecent.mp hr)
    rw [hone]
    exact ⟨hworld, hdone, hearly hr during⟩
  · have hdue : ¬ (fresh site cloud files quotas).Recent before := fun hr ↦ hearly hr [] hin
    refine ⟨hdue, by_contra fun hgate ↦ ?_⟩
    rw [hrecent, Bool.not_eq_false] at hdue
    rw [hone] at hin
    exact (queues_begin hfresh hout hreachable.staffed hdue hgate).2.out hin
  · rw [hrecent, Bool.not_eq_false] at hr
    rw [hone]
    exact mem_holders_begin hr hgate
  · have hdue : ¬ (fresh site cloud files quotas).Recent before := by
      intro hr
      have hnever := hearly hr (waiting ++ [e])
      rw [hafter, after_concat, ← hafter] at hnever
      exact hnever hgives.2
    have hlate : ((fresh site cloud files quotas).after before).world.refreshDue
        ((fresh site cloud files quotas).after before).site = true := by
      rw [hrecent, Bool.not_eq_false] at hdue
      exact hdue
    have hgate : ((fresh site cloud files quotas).after before).world.gate ≠ [] := by
      intro hgate
      refine hgives.1 ?_
      rw [hafter]
      exact mem_holders_after (mem_holders_begin hlate hgate) waiting
    exact forestalled_of_late site cloud files quotas he hlate hgate hout hwaiting hgives
  · rw [hrecent, Bool.not_eq_false, ((fresh site cloud files quotas).site_after before).1] at hr
    rcases ends_after site cloud files quotas he before .refresh during rfl (Or.inl trivial) o
      ho with ⟨honce, -⟩ | hends
    · cases honce with
      | early h => cases hr.symm.trans h
    · obtain ⟨x, hx, hcycle, hresult⟩ := hends.of_oneCycle trivial
      exact ⟨x, hx, (List.cons.inj hcycle).1.symm, hresult⟩

end

/-- What happens while two calls to refresh, made together, come to their cycles. -/
def racing : List Event :=
  [.elapse 10, .poll 0, .elapse 10, .poll 0, .poll 1, .elapse 10, .poll 1, .elapse 10, .poll 1]

theorem refresh_law_after_racing :
    (∀ e ∈ [.begin .refresh] ++ .begin .refresh :: racing, e.Orderly) ∧
      smallFleet.RefreshLaw [.begin .refresh] racing ∧
      smallFleet.Forestalled [.begin .refresh] (racing.take 4) := by
  have horderly : ∀ e ∈ [.begin .refresh] ++ .begin .refresh :: racing, e.Orderly := by
    simp [racing, Event.Orderly]
  refine ⟨horderly, refresh_law_after smallSite (.account smallAccount) .empty none horderly, 0,
    by decide +kernel, [.elapse 10, .poll 0, .elapse 10], List.prefix_refl _, ⟨?_, ?_⟩, ?_⟩
  · decide +kernel
  · decide +kernel
  · decide +kernel

/-- The second of two calls that are made together begins its cycle when that of the first has just
come to success, and both cycles succeed. -/
theorem not_keepsInterval_racing :
    ¬ smallFleet.KeepsInterval ([.begin .refresh] ++ .begin .refresh :: racing) ∧
      ((smallFleet.after ([.begin .refresh] ++ .begin .refresh :: racing)).world.journal.turns.map
        fun x ↦ (x.brief.ticket, x.result.toOption.isSome)) = [(0, true), (1, true)] := by
  refine ⟨fun hkeeps ↦ ?_, by decide +kernel⟩
  refine hkeeps ([.begin .refresh] ++ .begin .refresh :: racing.take 4) (.poll 1) 1
    ⟨racing.drop 5, rfl⟩ rfl ?_ ⟨20, ⟨_, List.prefix_refl _, ?_⟩, ?_⟩
  · exact ⟨by decide +kernel, by decide +kernel⟩
  · decide +kernel
  · decide +kernel

end NodeFleet.Fleet
