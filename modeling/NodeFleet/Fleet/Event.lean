import NodeFleet.Fleet.Activity
/-!
A fleet at work, and the events of which its histories are made. Between two events anything else
may happen: operations begin and are carried on in any order, time passes, the cloud changes, and
the registry is written directly.
-/

set_option autoImplicit false
set_option relaxedAutoImplicit false

namespace NodeFleet

open NodeFleet.Fleet NodeFleet.Quota

structure Fleet (α : Type) where
  site : Site
  world : World α
  /-- What is under way, in the order in which it began. -/
  activities : List (Ticket × Activity)
  outcomes : List (Ticket × Outcome)
  nextTicket : Ticket

namespace Fleet

variable {α : Type}

def start (site : Site) (world : World α) : Fleet α :=
  ⟨site, world, [], [], 0⟩

def activity? (f : Fleet α) (t : Ticket) : Option Activity :=
  (f.activities.find? fun e ↦ e.1 = t).map (·.2)

def outcome? (f : Fleet α) (t : Ticket) : Option Outcome :=
  (f.outcomes.find? fun e ↦ e.1 = t).map (·.2)

def setActivity (f : Fleet α) (t : Ticket) (a : Activity) : Fleet α :=
  { f with activities := f.activities.map fun e ↦ if e.1 = t then (t, a) else e }

def dropActivity (f : Fleet α) (t : Ticket) : Fleet α :=
  { f with activities := f.activities.filter fun e ↦ e.1 ≠ t }

/-- Takes over what polling an activity came to. -/
def settle (f : Fleet α) (t : Ticket) : Step α → Fleet α
  | (world, .waiting a) => { f.setActivity t a with world }
  | (world, .finished o) => { f.dropActivity t with world, outcomes := f.outcomes ++ [(t, o)] }

/-- Begins an operation under the next ticket. -/
def begin (f : Fleet α) [Balance α] (o : Operation) : Fleet α :=
  match f.world.startOperation f.site f.nextTicket o with
  | (world, .waiting a) =>
    { f with
      world
      activities := f.activities ++ [(f.nextTicket, a)]
      nextTicket := f.nextTicket + 1 }
  | (world, .finished o) =>
    { f with
      world
      outcomes := f.outcomes ++ [(f.nextTicket, o)]
      nextTicket := f.nextTicket + 1 }

/-- Carries an activity on as far as it goes at once. -/
def poll [Balance α] (f : Fleet α) (t : Ticket) : Fleet α :=
  match f.activity? t with
  | none => f
  | some a => f.settle t (f.world.pollActivity f.site t a)

def elapse (f : Fleet α) (millis : Nat) : Fleet α :=
  { f with world := { f.world with now := f.world.now + millis } }

/-- Stops a refresher; other activities go on. -/
def stop (f : Fleet α) (t : Ticket) : Fleet α :=
  match f.activity? t with
  | some (.refreshing r) => f.settle t (World.wrapRefresher (f.world, r.stop))
  | _ => f

inductive Event
  | begin (operation : Operation)
  | poll (ticket : Ticket)
  | elapse (millis : Nat)
  | stop (ticket : Ticket)
  | account (change : Account → Account)
  | line (line : Line)
  | files (files : Files)
  | register (candidate : Discovery.Candidate)
  | unregister (name : String)
  | replace (candidates : List Discovery.Candidate) (instances : Table String)

def step [Balance α] (f : Fleet α) : Event → Fleet α
  | .begin o => f.begin o
  | .poll t => f.poll t
  | .elapse millis => f.elapse millis
  | .stop t => f.stop t
  | .account change => { f with world := f.world.changeAccount change }
  | .line line => { f with world := { f.world with line } }
  | .files files => { f with world := { f.world with files } }
  | .register c => { f with world := (f.world.register c).1 }
  | .unregister name => { f with world := (f.world.unregister name).1 }
  | .replace cs instances => { f with world := (f.world.replace cs instances).1 }

/-- Drops the outcomes of what is over, and the journal. -/
def forgetPast (f : Fleet α) : Fleet α :=
  { f with outcomes := [], world := { f.world with journal := .empty } }

/-- The fleet after a history of events. -/
def after [Balance α] (f : Fleet α) (events : List Event) : Fleet α :=
  events.foldl step f

end Fleet

end NodeFleet
