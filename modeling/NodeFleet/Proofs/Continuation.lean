import NodeFleet.Proofs.Serializability
/-!
How a journal goes on while nobody writes to the registry directly. What is pending is entered
before the next cycle or with it, and a cycle during which nothing was written does to the registry
what it does alone. Nothing is, if no direct write is made while the call of the cycle is under way.
-/

set_option autoImplicit false
set_option relaxedAutoImplicit false

namespace NodeFleet.Fleet

open NodeFleet.Discovery NodeFleet.Quota

/-! ### Journals that go on -/

namespace Journal

/-- How a journal goes on without direct writes: what is pending is entered before the next cycle or
with it. -/
def Continues (j j' : Journal) : Prop :=
  ∃ (settled : List Write) (entered : List Turn),
    j'.deeds = j.deeds ++ settled.map .write ++ entered.map .turn ∧
      settled ++ entered.flatMap Turn.meanwhile ++ j'.pending = j.pending ∧
        (entered ≠ [] → j'.pending = [])

variable {j j' j'' : Journal}

namespace Continues

theorem of_eq (hdeeds : j'.deeds = j.deeds) (hpending : j'.pending = j.pending) :
    j.Continues j' :=
  ⟨[], [], by simpa using hdeeds, by simpa using hpending, fun h ↦ absurd rfl h⟩

theorem refl (j : Journal) : j.Continues j :=
  of_eq rfl rfl

theorem trans (h : j.Continues j') (h' : j'.Continues j'') : j.Continues j'' := by
  obtain ⟨settled, entered, hdeeds, hpending, hover⟩ := h
  obtain ⟨settled', entered', hdeeds', hpending', hover'⟩ := h'
  by_cases hnone : entered = []
  · obtain rfl := hnone
    refine ⟨settled ++ settled', entered', ?_, ?_, hover'⟩
    · rw [hdeeds', hdeeds]
      simp
    · rw [← hpending, ← hpending']
      simp
  · -- nothing was left for what came later
    rw [hover hnone] at hpending'
    obtain ⟨hearlier, hlast⟩ := List.append_eq_nil_iff.mp hpending'
    obtain ⟨rfl, hmeanwhile⟩ := List.append_eq_nil_iff.mp hearlier
    refine ⟨settled, entered ++ entered', ?_, ?_, fun _ ↦ hlast⟩
    · rw [hdeeds', hdeeds]
      simp
    · rw [← hpending, List.flatMap_append, hmeanwhile, hlast, hover hnone, List.append_nil,
        List.append_nil, List.append_nil]

theorem settle (j : Journal) : j.Continues j.settle :=
  ⟨j.pending, [], (List.append_nil _).symm, by simp [Journal.settle], fun h ↦ absurd rfl h⟩

theorem close (j : Journal) (b : Brief) (told : List (String × Except Error (List Member)))
    (installed : Option Snapshot) (result : Except Error Unit) :
    j.Continues (j.close b told installed result) :=
  ⟨[], [⟨b, told, j.pending, installed, result⟩], by simp [Journal.close],
    by simp [Journal.close], fun _ ↦ rfl⟩

/-- The turns that are entered. -/
theorem turns_eq {settled : List Write} {entered : List Turn}
    (hdeeds : j'.deeds = j.deeds ++ settled.map .write ++ entered.map .turn) :
    j'.turns = j.turns ++ entered := by
  have hwrites : (settled.map Deed.write).filterMap Deed.turn? = [] := by
    simp [List.filterMap_map, Function.comp_def, Deed.turn?]
  have hturns : (entered.map Deed.turn).filterMap Deed.turn? = entered := by
    simp [List.filterMap_map, Function.comp_def, Deed.turn?]
  unfold Journal.turns
  rw [hdeeds, List.filterMap_append, List.filterMap_append, hwrites, hturns, List.append_nil]

theorem pending_of_deeds (h : j.Continues j') (hdeeds : j'.deeds = j.deeds) :
    j'.pending = j.pending := by
  obtain ⟨settled, entered, heq, hpending, -⟩ := h
  rw [hdeeds, List.append_assoc] at heq
  obtain ⟨hwrites, hturns⟩ := List.append_eq_nil_iff.mp (List.self_eq_append_right.mp heq)
  rw [List.map_eq_nil_iff.mp hwrites, List.map_eq_nil_iff.mp hturns] at hpending
  exact hpending

/-- A single turn that nobody has written over comes after everything that was pending. -/
theorem deeds_of_turn (h : j.Continues j') {x : Turn} (hturns : j'.turns = j.turns ++ [x])
    (hx : x.meanwhile = []) :
    j'.deeds = j.deeds ++ j.pending.map .write ++ [.turn x] ∧ j'.pending = [] := by
  obtain ⟨settled, entered, hdeeds, hpending, hover⟩ := h
  obtain rfl : entered = [x] := List.append_cancel_left ((turns_eq hdeeds).symm.trans hturns)
  have hlast := hover (List.cons_ne_nil _ _)
  rw [hlast, List.flatMap_singleton, hx, List.append_nil, List.append_nil] at hpending
  exact ⟨hpending ▸ hdeeds, hlast⟩

end Continues

/-- Whether the turns that have been entered since all have a property. -/
def Adds (Q : Turn → Prop) (j j' : Journal) : Prop :=
  ∃ entered, j'.turns = j.turns ++ entered ∧ ∀ x ∈ entered, Q x

namespace Adds

variable {Q : Turn → Prop}

theorem refl (j : Journal) : Adds Q j j :=
  ⟨[], (List.append_nil _).symm, fun _ hx ↦ absurd hx List.not_mem_nil⟩

theorem settle (h : Adds Q j j') : Adds Q j j'.settle := by
  unfold Adds
  rw [turns_settle]
  exact h

theorem close (h : Adds Q j j') {b : Brief} {told : List (String × Except Error (List Member))}
    {installed : Option Snapshot} {result : Except Error Unit}
    (hx : Q ⟨b, told, j'.pending, installed, result⟩) :
    Adds Q j (j'.close b told installed result) := by
  obtain ⟨entered, hturns, hentered⟩ := h
  refine ⟨entered ++ [⟨b, told, j'.pending, installed, result⟩], ?_, ?_⟩
  · rw [turns_close, hturns, List.append_assoc]
  · intro x hmem
    rcases List.mem_append.mp hmem with hmem | hmem
    · exact hentered x hmem
    · obtain rfl := List.mem_singleton.mp hmem
      exact hx

end Adds

end Journal

variable {α : Type}

namespace World

variable {H : Lore} {site : Site} {w w' : World α}

/-- What is pending makes the difference between the deeds and the books. -/
theorem Kept.books_settled (h : w.Kept H site) :
    booksAfter site .empty (w.journal.deeds ++ w.journal.pending.map .write) = w.books := by
  rw [booksAfter_append, booksAfter_writes, h.books]
  rfl

/-- The deeds of which a single turn that nobody has written over is the last lead from the books
before it to those after it. -/
theorem Kept.books_of_turn (h : w.Kept H site) (h' : w'.Kept H site)
    (hj : w.journal.Continues w'.journal) {x : Turn} {earlier later : List Deed}
    (hturns : w'.journal.turns = w.journal.turns ++ [x]) (hx : x.meanwhile = [])
    (hdeeds : w'.journal.deeds = w.journal.deeds ++ earlier ++ .turn x :: later) :
    booksAfter site .empty (w.journal.deeds ++ earlier) = w.books ∧
      booksAfter site .empty (w.journal.deeds ++ earlier ++ [.turn x]) = w'.books := by
  obtain ⟨hlast, hpending⟩ := hj.deeds_of_turn hturns hx
  rw [hlast, List.append_assoc, List.append_assoc] at hdeeds
  obtain ⟨rfl, rfl⟩ : earlier = w.journal.pending.map .write ∧ later = [] := by
    rcases List.append_eq_append_iff.mp (List.append_cancel_left hdeeds) with
      ⟨rest, hearlier, htail⟩ | ⟨rest, hwrites, htail⟩
    · rcases List.append_eq_singleton_iff.mp htail.symm with ⟨rfl, hlater⟩ | ⟨-, hlater⟩
      · exact ⟨hearlier.trans (List.append_nil _), (List.cons.inj hlater).2⟩
      · cases hlater
    · cases rest with
      | nil => exact ⟨(hwrites.trans (List.append_nil _)).symm, (List.cons.inj htail).2⟩
      | cons d rest =>
        -- a turn is no write
        obtain ⟨rfl, -⟩ := List.cons.inj htail
        have hwrite : Deed.turn x ∈ w.journal.pending.map .write := by simp [hwrites]
        obtain ⟨_, -, hturn⟩ := List.mem_map.mp hwrite
        cases hturn
  refine ⟨h.books_settled, ?_⟩
  rw [← h'.books_settled, hpending, hlast, List.map_nil, List.append_nil]

end World

section

variable [Balance α]

/-- Activities go on with the journal. -/
theorem tended_continues (site : Site) (t : Ticket) (j : Journal) :
    Tended site t fun (w : World α) _ ↦ j.Continues w.journal where
  asking _ := World.asking_of_kept (fun _ _ h ↦ h) fun h ↦ h
  join h := h
  take h := h.trans (.of_eq rfl rfl)
  fault _ _ _ _ h := (h.trans (.settle _)).trans (.close ..)
  plan {w} _ _ candidates _ h := by
    obtain ⟨cells, hnew⟩ :=
      ({ w with journal := w.journal.settle } : World α).inquired_newGroups candidates
    rw [hnew]
    exact h.trans (.settle _)
  fail h _ _ := h.trans (.close ..)
  conclude h _ _ := h.trans (.close ..)
  noted h := h

/-- Whether nothing has been written to the registry since the cycle under way has planned, nor
during the turns that have been entered. -/
structure Calm (j : Journal) (w : World α) (s : Stage) : Prop where
  pending : ∀ b plan, s = .planned b plan → w.journal.pending = []
  entered : Journal.Adds (fun x ↦ x.meanwhile = []) j w.journal

theorem tended_calm (site : Site) (t : Ticket) (j : Journal) :
    Tended site t (Calm (α := α) j) where
  asking _ := World.asking_of_kept (fun _ _ h ↦ ⟨h.pending, h.entered⟩)
    fun h ↦ ⟨h.pending, h.entered⟩
  join h := ⟨(fun _ _ hs ↦ nomatch hs), h.entered⟩
  take h := ⟨(fun _ _ hs ↦ nomatch hs), h.entered⟩
  fault _ _ _ _ h := ⟨(fun _ _ hs ↦ nomatch hs), h.entered.settle.close rfl⟩
  plan {w} _ _ candidates _ h := by
    obtain ⟨cells, hnew⟩ :=
      ({ w with journal := w.journal.settle } : World α).inquired_newGroups candidates
    rw [hnew]
    exact ⟨fun _ _ _ ↦ rfl, h.entered.settle⟩
  fail h _ _ := ⟨(fun _ _ hs ↦ nomatch hs), h.entered.close (h.pending _ _ rfl)⟩
  conclude h _ _ := ⟨(fun _ _ hs ↦ nomatch hs), h.entered.close (h.pending _ _ rfl)⟩
  noted h := ⟨h.pending, h.entered⟩

end

/-! ### Activities that have planned -/

section

variable {H : Lore} {f : Fleet α} {t : Ticket}

theorem Activity.Sound.heldBy {site : Site} {j : Journal} {a : Activity} (h : a.Sound H site j t)
    {b : Brief} {plan : Plan} (hs : a.stage = .planned b plan) : j.HeldBy t := by
  have hheld : ∀ cycle phase, a.underway? site = some (cycle, phase) →
      phase.stage = .planned b plan → j.HeldBy t := by
    intro cycle phase hbusy hphase
    refine (h.busy cycle phase hbusy).heldBy ?_
    rintro rfl
    cases hphase
  cases a with
  | discovering errand phase => exact hheld _ phase rfl hs
  | refreshing r =>
    cases hrunning : r.running with
    | none =>
      change r.stage = _ at hs
      unfold Refresher.stage at hs
      rw [hrunning] at hs
      cases hs
    | some phase =>
      change r.stage = _ at hs
      unfold Refresher.stage at hs
      rw [hrunning] at hs
      exact hheld _ phase (Activity.underway?_of_running hrunning) hs
  | _ => cases hs

/-- While an activity has a cycle that has planned, a step of another leaves the journal
as it is. -/
theorem Sound.journal_of_planned (hs : f.Sound H) {r : Step α} (hr : Taken H f.site t f.world r)
    (hj : f.world.journal.Continues r.1.journal) {e : Ticket × Activity} (he : e ∈ f.activities)
    (hne : e.1 ≠ t) {b : Brief} {plan : Plan} (hplanned : e.2.stage = .planned b plan) :
    r.1.journal.deeds = f.world.journal.deeds ∧ r.1.journal.pending = f.world.journal.pending := by
  have hdeeds := (hr.moved.others e.1 hne).2 ((hs.activities e he).heldBy hplanned)
  exact ⟨hdeeds, hj.pending_of_deeds hdeeds⟩

/-- It leaves the registry as it is, and plans nothing itself. -/
theorem Sound.registry_of_planned (hs : f.Sound H) {r : Step α} (hr : Taken H f.site t f.world r)
    (hj : f.world.journal.Continues r.1.journal) {e : Ticket × Activity} (he : e ∈ f.activities)
    (hne : e.1 ≠ t) {b : Brief} {plan : Plan} (hplanned : e.2.stage = .planned b plan) :
    r.1.registry = f.world.registry ∧ ∀ b plan, Activity.stageAfter r.2 ≠ .planned b plan := by
  obtain ⟨hdeeds, hpending⟩ := hs.journal_of_planned hr hj he hne hplanned
  have hheld := (hs.activities e he).heldBy hplanned
  have hiff := (hr.moved.others e.1 hne).1
  constructor
  · have hbooks : r.1.books = f.world.books := by
      rw [hr.kept.books, hs.kept.books]
      unfold Journal.books Journal.planned
      rw [hdeeds, hpending]
    exact congrArg Books.registry hbooks
  · intro b' plan' hstage
    rcases hleft : r.2 with a | o
    · have hsound := hr.left
      rw [hleft] at hsound hstage
      exact hne ((hiff.mpr hheld).eq (Activity.Sound.heldBy hsound hstage))
    · rw [hleft] at hstage
      cases hstage

end

/-! ### Steps -/

variable [Balance α] {H : Lore} {f : Fleet α} {t : Ticket}

/-- A step that enters turns goes on with the journal. -/
theorem continues_step (f : Fleet α) {e : Event}
    (h : (f.step e).world.journal.turns ≠ f.world.journal.turns) :
    f.world.journal.Continues (f.step e).world.journal := by
  cases e with
  | begin o =>
    show f.world.journal.Continues (f.begin o).world.journal
    rw [world_begin]
    exact (tended_continues f.site f.nextTicket _).begin (fun _ _ h ↦ h) o (.refl _)
  | poll t =>
    show f.world.journal.Continues (f.poll t).world.journal
    unfold Fleet.poll
    cases f.activity? t with
    | none => exact .refl _
    | some a =>
      dsimp only
      rw [world_settle]
      exact (tended_continues f.site t _).poll (fun _ _ h ↦ h) (.refl _)
  | _ => exact absurd (f.turns_of_other (by rintro o ⟨⟩) (by rintro t ⟨⟩)) h

/-- Whether nothing is pending once the cycle of the ticket's activity has planned. -/
def Undisputed (t : Ticket) (f : Fleet α) : Prop :=
  ∀ a, f.activity? t = some a → ∀ b plan, a.stage = .planned b plan → f.world.journal.pending = []

omit [Balance α] in
theorem Calm.changeCell {j : Journal} {w : World α} {s : Stage} (h : Calm j w s) (g : NodeGroup)
    (f : SizeCell → SizeCell) : Calm j (w.changeCell g f) s :=
  ⟨h.pending, h.entered⟩

theorem calm_begin (f : Fleet α) (o : Operation) :
    Calm f.world.journal (f.world.startOperation f.site f.nextTicket o).1
      (Activity.stageAfter (f.world.startOperation f.site f.nextTicket o).2) :=
  (tended_calm f.site f.nextTicket _).begin (fun g change h ↦ h.changeCell g change) o
    ⟨(fun _ _ hs ↦ nomatch hs), .refl _⟩

theorem Undisputed.calm (h : f.Undisputed t) {a : Activity} (ha : f.activity? t = some a) :
    Calm f.world.journal (f.world.pollActivity f.site t a).1
      (Activity.stageAfter (f.world.pollActivity f.site t a).2) :=
  (tended_calm f.site t _).poll (fun g change h ↦ h.changeCell g change) ⟨h a ha, .refl _⟩

theorem undisputed_begin (hfresh : f.activity? f.nextTicket = none) (o : Operation) :
    (f.begin o).Undisputed f.nextTicket := by
  intro a ha b plan hstage
  rw [activity?_begin_self hfresh] at ha
  have hcalm := calm_begin f o
  rw [world_begin]
  split at ha
  · rename_i a' hwaiting
    obtain rfl := Option.some.inj ha
    rw [hwaiting] at hcalm
    exact hcalm.pending b plan hstage
  · cases ha

/-- Nothing comes to be pending without a direct write. -/
theorem Undisputed.step (h : f.Undisputed t) (hs : f.Sound H)
    (htells : ∀ t ≤ f.nextTicket, ∀ q r, f.world.Tells f.site q r → H.told t q r)
    {e : Event} (he : e.Indirect)
    (hasks : ∀ o, e.operation? = some o → ∀ c ∈ o.cycles f.site, H.asked f.nextTicket c)
    (ht : t < f.nextTicket) : (f.step e).Undisputed t := by
  cases e with
  | begin o =>
    intro a ha b plan hstage
    have hne : t ≠ f.nextTicket := Nat.ne_of_lt ht
    change (f.begin o).activity? t = some a at ha
    rw [activity?_begin_of_ne f o hne] at ha
    have htaken := taken_startOperation hs.kept (htells _ (Nat.le_refl _))
      (hs.unknown _ (Nat.le_refl _)) (hasks o rfl)
    have hcontinues := (tended_continues f.site f.nextTicket f.world.journal).begin
      (fun _ _ h ↦ h) o (.refl _)
    show (f.begin o).world.journal.pending = []
    rw [world_begin,
      (hs.journal_of_planned htaken hcontinues (mem_of_activity? ha) hne hstage).2]
    exact h a ha b plan hstage
  | poll t' =>
    show (f.poll t').Undisputed t
    unfold Fleet.poll
    cases hactivity : f.activity? t' with
    | none => exact h
    | some a' =>
      intro a ha b plan hstage
      dsimp only at ha ⊢
      rw [activity?_settle hactivity] at ha
      rw [world_settle]
      split_ifs at ha with hsame
      · obtain rfl := hsame
        have hcalm := h.calm hactivity
        split at ha
        · rename_i a'' hwaiting
          obtain rfl := Option.some.inj ha
          rw [hwaiting] at hcalm
          exact hcalm.pending b plan hstage
        · cases ha
      · have hmem := mem_of_activity? hactivity
        have htaken := taken_pollActivity hs.kept (htells _ (Nat.le_of_lt (hs.known _ hmem)))
          (hs.activities _ hmem)
        have hcontinues : f.world.journal.Continues
            (f.world.pollActivity f.site t' a').1.journal :=
          (tended_continues f.site t' f.world.journal).poll (fun _ _ h ↦ h) (.refl _)
        rw [(hs.journal_of_planned htaken hcontinues (mem_of_activity? ha) hsame hstage).2]
        exact h a ha b plan hstage
  | stop t' =>
    show (f.stop t').Undisputed t
    unfold Fleet.stop
    split
    · rename_i r hactivity
      intro a ha b plan hstage
      rw [activity?_settle hactivity] at ha
      rw [world_settle]
      split_ifs at ha with hsame
      · obtain rfl := hsame
        unfold World.wrapRefresher at ha
        split at ha
        · rename_i a' hwaiting
          obtain rfl := Option.some.inj ha
          split_ifs at hwaiting
          obtain rfl := Progress.waiting.inj hwaiting
          exact h _ hactivity b plan hstage
        · cases ha
      · exact h a ha b plan hstage
    · exact h
  | account change =>
    intro a ha b plan hstage
    show (f.world.changeAccount change).journal.pending = []
    rw [(journal_changeAccount f.world change).1]
    exact h a ha b plan hstage
  | register c => exact he.elim
  | unregister name => exact he.elim
  | replace cs instances => exact he.elim
  | _ => exact h

/-! ### Histories -/

section

variable (site : Site) (cloud : Cloud) (files : Files) (quotas : Option (Quotas α))

theorem undisputed_after {earlier during : List Event} {o : Operation}
    (he : ∀ e ∈ earlier ++ .begin o :: during, e.Orderly) (hindirect : ∀ e ∈ during, e.Indirect) :
    ((fresh site cloud files quotas).after (earlier ++ .begin o :: during)).Undisputed
      (begun earlier).length := by
  have hnext := nextTicket_after site cloud files quotas earlier
  induction during using List.reverseRecOn with
  | nil =>
    rw [after_concat, ← hnext]
    exact undisputed_begin (tracked_after site cloud files quotas earlier).fresh_activity o
  | append_singleton during e ih =>
    have hbefore : earlier ++ .begin o :: during <+: (earlier ++ .begin o :: during) ++ [e] :=
      List.prefix_append _ _
    have hevents : earlier ++ .begin o :: (during ++ [e]) =
        (earlier ++ .begin o :: during) ++ [e] := by
      simp
    rw [hevents] at he ⊢
    rw [after_concat]
    refine (ih (fun x hx ↦ he x (List.mem_append_left _ hx))
      fun x hx ↦ hindirect x (List.mem_append_left _ hx)).step
        (sound_after site cloud files quotas he hbefore) (tells_lore _ hbefore)
        (hindirect e (by simp)) (asked_lore site cloud files quotas (List.prefix_refl _)) ?_
    rw [nextTicket_after]
    have hbegun : begun (earlier ++ .begin o :: during) = begun earlier ++ o :: begun during := by
      simp [begun, Event.operation?]
    rw [hbegun, List.length_append, List.length_cons]
    exact Nat.lt_add_of_pos_right (Nat.succ_pos _)

end

end NodeFleet.Fleet
