import NodeFleet.Fleet.Cycle
/-!
Refreshing: an auto discovery cycle whose success is noted with its time. A refresher does it again
and again, at the moment it begins and at every multiple of its interval after that, one cycle at a
time; a failed cycle does not stop it.
-/

set_option autoImplicit false
set_option relaxedAutoImplicit false

namespace NodeFleet.Fleet

open NodeFleet.Quota

variable {α : Type}

namespace World

/-- Whether the refresh interval has passed since the last refresh. -/
def refreshDue (w : World α) (site : Site) : Bool :=
  match w.refreshedAt with
  | none => true
  | some t => !site.refreshInterval.outlasts (w.now - t)

def noteRefresh (w : World α) : World α :=
  { w with refreshedAt := some w.now }

/-- Notes a refresh once its cycle has succeeded. -/
def noted (r : World α × Progress CyclePhase (Except Error Unit)) :
    World α × Progress CyclePhase (Except Error Unit) :=
  match r with
  | (w, .finished (.ok ())) => (w.noteRefresh, .finished (.ok ()))
  | r => r

def startRefresh [Balance α] (w : World α) (site : Site) (t : Ticket) :
    World α × Progress CyclePhase (Except Error Unit) :=
  noted (w.startCycle site t .auto)

def pollRefresh [Balance α] (w : World α) (site : Site) (t : Ticket) (phase : CyclePhase) :
    World α × Progress CyclePhase (Except Error Unit) :=
  noted (w.pollCycle site t .auto phase)

end World

/-- What may go wrong in a refresher: a discovery, or something else that has its own wording. -/
inductive Mishap
  | discovery (error : Error)
  | other (text : String)

namespace Mishap

def message : Mishap → String
  | discovery error => error.message
  | other text => text

/-- No mishap ends a refresher. -/
def isFatal (_ : Mishap) : Bool := false

end Mishap

structure Refresher where
  interval : Nat
  /-- When the next refresh falls due; a stopped refresher has none. -/
  nextTick : Option Nat
  /-- Refreshes that fell due and have not begun. -/
  backlog : Nat
  running : Option CyclePhase

namespace Refresher

def start (interval now : Nat) : Refresher := ⟨interval, some now, 0, none⟩

/-- Takes in the ticks up to now. -/
def absorb (r : Refresher) (now : Nat) : Refresher :=
  match r.nextTick with
  | none => r
  | some tick =>
    if tick ≤ now then
      let step := max r.interval 1
      let count := (now - tick) / step + 1
      { r with nextTick := some (tick + count * step), backlog := r.backlog + count }
    else r

/-- No cycle begins any more; one that has begun goes on to its end. -/
def stop (r : Refresher) : Refresher :=
  { r with nextTick := none, backlog := 0 }

def wake (r : Refresher) : Option Nat :=
  earlier r.nextTick (r.running.bind CyclePhase.wake)

def isReady (w : World α) (t : Ticket) (r : Refresher) : Bool :=
  r.nextTick.any (· ≤ w.now) || r.running.any fun phase ↦ phase.isReady w t

/-- Nothing is left to do. -/
def isOver (r : Refresher) : Bool :=
  r.nextTick.isNone && r.backlog == 0 && r.running.isNone

/-- The refresher after a cycle, which a fatal mishap stops. -/
def afterCycle (r : Refresher) : Except Error Unit → Refresher
  | .ok () => { r with running := none }
  | .error e =>
    if (Mishap.discovery e).isFatal then { r.stop with running := none }
    else { r with running := none }

/-- Begins cycles that have fallen due until one has to wait. -/
def drain [Balance α] (site : Site) (t : Ticket) : Nat → World α → Refresher → World α × Refresher
  | 0, w, r => (w, r)
  | rounds + 1, w, r =>
    if r.running.isSome || r.backlog == 0 then (w, r)
    else
      let r := { r with backlog := r.backlog - 1 }
      match w.startRefresh site t with
      | (w, .waiting phase) => (w, { r with running := some phase })
      | (w, .finished result) => drain site t rounds w (r.afterCycle result)

def poll [Balance α] (w : World α) (site : Site) (t : Ticket) (r : Refresher) :
    World α × Refresher :=
  let r := r.absorb w.now
  match r.running with
  | none => drain site t r.backlog w r
  | some phase =>
    match w.pollRefresh site t phase with
    | (w, .waiting phase) => (w, { r with running := some phase })
    | (w, .finished result) =>
      let r := r.afterCycle result
      drain site t r.backlog w r

end Refresher

end NodeFleet.Fleet
