import NodeFleet.Fleet.Schedule
import NodeFleet.Proofs.Calls
/-!
A fetch that has the fleet to itself. On the schedule its cycle goes on by beats: the clock jumps to
the moment for which the cycle waits, and the cycle is polled. Two rounds of the schedule make a
beat, and when the cycle has ended the fleet is at rest.
-/

set_option autoImplicit false
set_option relaxedAutoImplicit false

namespace NodeFleet.Fleet

open NodeFleet.Discovery NodeFleet.Quota

variable {α : Type} [Balance α]

/-- What comes of a cycle in any number of beats. -/
inductive Beats (site : Site) (t : Ticket) (cycle : Cycle) :
    World α × Progress CyclePhase (Except Error Unit) →
      World α × Progress CyclePhase (Except Error Unit) → Prop
  | refl (r : World α × Progress CyclePhase (Except Error Unit)) : Beats site t cycle r r
  | beat {w : World α} {phase : CyclePhase} {wake : Nat}
      {r : World α × Progress CyclePhase (Except Error Unit)} (waits : phase.wake = some wake)
      (later : w.now < wake)
      (next : Beats site t cycle
        (({ w with now := wake } : World α).pollCycle site t cycle phase) r) :
      Beats site t cycle (w, .waiting phase) r

omit [Balance α] in
/-- The fleet with the cycle of a fetch under the next ticket, wherever that is. -/
def fetching (f : Fleet α) (cycle : Cycle) :
    World α × Progress CyclePhase (Except Error Unit) → Fleet α
  | (world, .waiting phase) =>
    { f with
      world
      activities := [(f.nextTicket, .discovering (.fetch cycle) phase)]
      nextTicket := f.nextTicket + 1 }
  | (world, .finished result) =>
    { f with
      world
      activities := []
      outcomes := f.outcomes ++ [(f.nextTicket, World.ofResult (fun _ ↦ .done) result)]
      nextTicket := f.nextTicket + 1 }

variable {f : Fleet α} {cycle : Cycle} {w : World α} {phase : CyclePhase} {wake : Nat}

theorem begin_eq_fetching (hidle : f.activities = []) {o : Operation}
    (ho : f.world.startOperation f.site f.nextTicket o =
      f.world.startErrand f.site f.nextTicket (.fetch cycle)) :
    f.begin o = f.fetching cycle (f.world.startCycle f.site f.nextTicket cycle) := by
  have hstart : f.world.startErrand f.site f.nextTicket (.fetch cycle) =
      World.wrapCycle (.fetch cycle) (f.world.startCycle f.site f.nextTicket cycle) := rfl
  unfold Fleet.begin
  rw [ho, hstart]
  rcases f.world.startCycle f.site f.nextTicket cycle with ⟨w, phase | result⟩
  · dsimp only [World.wrapCycle, World.wrap]
    rw [hidle]
    rfl
  · dsimp only [World.wrapCycle, World.wrap]
    rw [hidle]
    rfl

/-! ### Rounds -/

omit [Balance α] in
theorem activity?_fetching :
    (f.fetching cycle (w, .waiting phase)).activity? f.nextTicket =
      some (.discovering (.fetch cycle) phase) := by
  simp [activity?, fetching]

theorem poll_fetching :
    (f.fetching cycle (w, .waiting phase)).poll f.nextTicket =
      f.fetching cycle (w.pollCycle f.site f.nextTicket cycle phase) := by
  have hpolled : (f.fetching cycle (w, .waiting phase)).world.pollActivity
      (f.fetching cycle (w, .waiting phase)).site f.nextTicket (.discovering (.fetch cycle) phase) =
      World.wrapCycle (.fetch cycle) (w.pollCycle f.site f.nextTicket cycle phase) := rfl
  unfold Fleet.poll
  rw [activity?_fetching]
  dsimp only
  rw [hpolled]
  rcases w.pollCycle f.site f.nextTicket cycle phase with ⟨w', phase' | result⟩
  · simp [World.wrapCycle, World.wrap, settle, setActivity, fetching]
  · simp [World.wrapCycle, World.wrap, settle, dropActivity, fetching]

omit [Balance α] in
theorem tickets_fetching (background : Bool) :
    (f.fetching cycle (w, .waiting phase)).tickets background =
      if background then [] else [f.nextTicket] := by
  cases background <;> rfl

omit [Balance α] in
theorem isReady_fetching (hwake : phase.wake = some wake) :
    (f.fetching cycle (w, .waiting phase)).isReady f.nextTicket = decide (wake ≤ w.now) := by
  unfold isReady
  rw [activity?_fetching]
  show phase.isReady w f.nextTicket = decide (wake ≤ w.now)
  cases phase with
  | queued => cases hwake
  | _ =>
    dsimp only [CyclePhase.isReady]
    rw [hwake]
    rfl

omit [Balance α] in
theorem wake_fetching (hwake : phase.wake = some wake) :
    (f.fetching cycle (w, .waiting phase)).wake = some wake := by
  show earlier none phase.wake = some wake
  rw [hwake]
  rfl

/-- A round before the moment for which the cycle waits makes the clock jump. -/
theorem round?_of_waiting (hwake : phase.wake = some wake) (h : w.now < wake) :
    (f.fetching cycle (w, .waiting phase)).round? =
      some (f.fetching cycle ({ w with now := wake }, .waiting phase)) := by
  have hready : (f.fetching cycle (w, .waiting phase)).isReady f.nextTicket = false := by
    rw [isReady_fetching hwake]
    exact decide_eq_false (Nat.not_le.mpr h)
  have hnow : (f.fetching cycle (w, .waiting phase)).world.now = w.now := rfl
  unfold round?
  rw [tickets_fetching, tickets_fetching, wake_fetching hwake, hnow]
  simp only [Bool.false_eq_true, if_false, if_true, List.any_cons, List.any_nil, hready,
    Bool.or_false, h]
  unfold elapse
  rw [hnow, Nat.add_sub_cancel' (Nat.le_of_lt h)]
  rfl

/-- A round at that moment polls it. -/
theorem round?_of_ready (hwake : phase.wake = some wake) (h : wake ≤ w.now) :
    (f.fetching cycle (w, .waiting phase)).round? =
      some (f.fetching cycle (w.pollCycle f.site f.nextTicket cycle phase)) := by
  have hready : (f.fetching cycle (w, .waiting phase)).isReady f.nextTicket = true := by
    rw [isReady_fetching hwake]
    exact decide_eq_true h
  unfold round?
  rw [tickets_fetching]
  simp only [Bool.false_eq_true, if_false, List.any_cons, List.any_nil, hready, Bool.or_false,
    if_true]
  unfold pass
  simp only [List.foldl_cons, List.foldl_nil, hready, if_true]
  rw [poll_fetching]

/-! ### Runs -/

omit [Balance α] in
theorem isAtRest_fetching_waiting :
    (f.fetching cycle (w, .waiting phase)).isAtRest = false := by
  unfold isAtRest
  rw [tickets_fetching]
  rfl

theorem run_beat (hwake : phase.wake = some wake) (h : w.now < wake) (fuel : Nat) :
    (f.fetching cycle (w, .waiting phase)).run (fuel + 2) =
      (f.fetching cycle (({ w with now := wake } : World α).pollCycle f.site f.nextTicket cycle
        phase)).run fuel := by
  rw [run, isAtRest_fetching_waiting, round?_of_waiting hwake h]
  dsimp only
  rw [if_neg Bool.false_ne_true, run, isAtRest_fetching_waiting,
    round?_of_ready (w := { w with now := wake }) hwake (Nat.le_refl _)]
  exact if_neg Bool.false_ne_true

theorem run_of_isAtRest (h : f.isAtRest = true) (fuel : Nat) : f.run fuel = f := by
  cases fuel with
  | zero => rfl
  | succ fuel =>
    rw [run]
    exact if_pos h

/-- A run goes on where it was left. -/
theorem run_add (n k : Nat) (f : Fleet α) : f.run (n + k) = (f.run n).run k := by
  induction n generalizing f with
  | zero =>
    rw [Nat.zero_add]
    rfl
  | succ n ih =>
    rw [Nat.succ_add, run, run]
    cases hrest : f.isAtRest with
    | true => exact (run_of_isAtRest hrest k).symm
    | false =>
      cases hround : f.round? with
      | some next => exact ih next
      | none =>
        show f = f.run k
        cases k with
        | zero => rfl
        | succ k =>
          rw [run, hrest, hround]
          rfl

/-- Beats that bring a cycle to its end are made by some number of rounds, and
more change nothing. -/
theorem run_of_beats {r : World α × Progress CyclePhase (Except Error Unit)} {w' : World α}
    {result : Except Error Unit}
    (h : Beats f.site f.nextTicket cycle r (w', .finished result)) :
    ∃ rounds, ∀ fuel, rounds ≤ fuel →
      (f.fetching cycle r).run fuel = f.fetching cycle (w', .finished result) := by
  generalize hend : (w', Progress.finished result) = last at h
  induction h with
  | refl r =>
    subst hend
    exact ⟨0, fun fuel _ ↦ run_of_isAtRest rfl fuel⟩
  | beat waits later next ih =>
    obtain ⟨rounds, hrun⟩ := ih hend
    refine ⟨rounds + 2, fun fuel hfuel ↦ ?_⟩
    obtain ⟨rest, rfl⟩ := Nat.exists_eq_add_of_le hfuel
    rw [Nat.add_right_comm, run_beat waits later]
    exact hrun _ (Nat.le_add_right _ _)

omit [Balance α] in
theorem outcome?_fetching (hfresh : f.outcome? f.nextTicket = none) {result : Except Error Unit} :
    (f.fetching cycle (w, .finished result)).outcome? f.nextTicket =
      some (World.ofResult (fun _ ↦ .done) result) := by
  refine (find?_concat f.outcomes f.nextTicket f.nextTicket _).trans ?_
  rw [show (f.outcomes.find? fun e ↦ e.1 = f.nextTicket).map (·.2) = none from hfresh,
    Option.none_or]
  exact if_pos rfl

end NodeFleet.Fleet
