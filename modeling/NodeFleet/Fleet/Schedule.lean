import NodeFleet.Fleet.Event
/-!
The schedule on which a fleet is carried on: the activities that can go on are polled in the order
in which they began, those in the background after the others; when none can, the clock jumps to
the moment at which the first one can. Every round is a history of events.
-/

set_option autoImplicit false
set_option relaxedAutoImplicit false

namespace NodeFleet.Fleet

open NodeFleet.Quota

variable {α : Type}

def isReady (f : Fleet α) (t : Ticket) : Bool :=
  (f.activity? t).any fun a ↦ a.isReady f.world t

/-- The tickets of what goes on in the background, or of all the rest. -/
def tickets (f : Fleet α) (background : Bool) : List Ticket :=
  (f.activities.filter fun e ↦ e.2.isBackground = background).map (·.1)

/-- Nothing is left that anybody waits for. -/
def isAtRest (f : Fleet α) : Bool :=
  (f.tickets false).isEmpty

/-- The moment at which the first activity can go on. -/
def wake (f : Fleet α) : Option Nat :=
  (f.activities.map fun e ↦ e.2.wake).foldl earlier none

variable [Balance α]

/-- Polls those that can go on, one after the other. -/
def pass (f : Fleet α) (ts : List Ticket) : Fleet α :=
  ts.foldl (fun f t ↦ if f.isReady t then f.poll t else f) f

/-- One round of the schedule, if anything can ever go on. -/
def round? (f : Fleet α) : Option (Fleet α) :=
  if (f.tickets false).any f.isReady then some (f.pass (f.tickets false))
  else if (f.tickets true).any f.isReady then some (f.pass (f.tickets true))
  else
    match f.wake with
    | none => none
    | some t => if f.world.now < t then some (f.elapse (t - f.world.now)) else none

/-- Goes on until the fleet is at rest; the rounds are bounded by `fuel`. -/
def run : Nat → Fleet α → Fleet α
  | 0, f => f
  | fuel + 1, f =>
    if f.isAtRest then f
    else
      match f.round? with
      | none => f
      | some f => run fuel f

/-- Begins an operation and goes on until the fleet is at rest again. -/
def perform (fuel : Nat) (f : Fleet α) (o : Operation) : Fleet α × Option Outcome :=
  let f' := (f.begin o).run fuel
  (f', f'.outcome? f.nextTicket)

end NodeFleet.Fleet
