import NodeFleet.Fleet.Inquiry
/-!
Discovery cycles. Cycles run one at a time: a cycle waits at the gate, asks for the scale sets,
plans the groups, asks for the members of all planned groups together, and then installs the plan.
Any failure ends the cycle and leaves registry and pins as they were.
-/

set_option autoImplicit false
set_option relaxedAutoImplicit false

namespace NodeFleet.Fleet

open NodeFleet.Discovery NodeFleet.Quota

/-- The member listing of one planned group. -/
inductive Listing
  | waiting (i : Inquiry)
  | arrived (answer : Except Error (List Member))

namespace Listing

def answer? : Listing → Option (Except Error (List Member))
  | waiting _ => none
  | arrived answer => some answer

def members? : Listing → Option (List Member)
  | waiting _ => none
  | arrived answer => (membersOrNone answer).toOption

/-- The failure by which the listing ends its cycle. -/
def failure? : Listing → Option Error
  | waiting _ => none
  | arrived answer =>
    match membersOrNone answer with
    | .ok _ => none
    | .error e => some e

end Listing

/-- The answers that have arrived, by the name of the group. -/
def told (groups : List NodeGroup) (listings : List Listing) :
    List (String × Except Error (List Member)) :=
  (groups.zip listings).filterMap fun e ↦ e.2.answer?.map fun answer ↦ (e.1.name, answer)

/-- The members of all groups, once every listing has arrived. -/
def gathered? (groups : List NodeGroup) (listings : List Listing) :
    Option (List (String × List Member)) :=
  (groups.zip listings).mapM fun e ↦ e.2.members?.map fun members ↦ (e.1.name, members)

inductive CyclePhase
  | queued
  | listing (i : Inquiry)
  | indexing (brief : Brief) (plan : Plan) (listings : List Listing)

variable {α : Type}

namespace World

def joinGate (w : World α) (t : Ticket) : World α :=
  { w with gate := w.gate ++ [t] }

def hasGate (w : World α) (t : Ticket) : Bool :=
  w.gate.head? == some t

/-- Leaves the gate and enters the cycle in the journal. -/
def leaveGate (w : World α) (b : Brief) (told : List (String × Except Error (List Member)))
    (installed : Option Snapshot) (result : Except Error Unit) : World α :=
  { w with
    gate := w.gate.filter (· ≠ b.ticket)
    journal := w.journal.close b told installed result }

def pollMembers [Balance α] (w : World α) (site : Site) (g : NodeGroup) :
    Listing → World α × Listing
  | .arrived answer => (w, .arrived answer)
  | .waiting i =>
    match w.pollInquiry site (.members g.name) i with
    | (w, .waiting i) => (w, .waiting i)
    | (w, .finished answer) => (w, .arrived answer)

/-- Carries the listings on in the order of the groups, up to the first that fails. -/
def pollListings [Balance α] (w : World α) (site : Site) :
    List NodeGroup → List Listing → World α × List Listing
  | g :: groups, l :: listings =>
    match w.pollMembers site g l with
    | (w, l) =>
      if l.failure?.isSome then (w, l :: listings)
      else
        match w.pollListings site groups listings with
        | (w, listings) => (w, l :: listings)
  | _, listings => (w, listings)

/-- Installs a plan and pins its names. -/
def install (w : World α) (plan : Plan) (index : Table String) : World α :=
  { w with
    registry := plan.commit w.registry index
    pinned := w.pinned ++ plan.pins.filter (· ∉ w.pinned) }

/-- Ends a cycle with the members of all groups. -/
def concludeCycle (w : World α) (b : Brief) (plan : Plan) (listings : List Listing)
    (members : List (String × List Member)) : World α :=
  (w.install plan (memberIndex members)).leaveGate b (told plan.groups listings)
    (plan.installed? w.registry (memberIndex members)) (.ok ())

def pollIndexing [Balance α] (w : World α) (site : Site) (b : Brief) (plan : Plan)
    (listings : List Listing) : World α × Progress CyclePhase (Except Error Unit) :=
  match w.pollListings site plan.groups listings with
  | (w, listings) =>
    match listings.findSome? Listing.failure? with
    | some e => (w.leaveGate b (told plan.groups listings) none (.error e), .finished (.error e))
    | none =>
      match gathered? plan.groups listings with
      | none => (w, .waiting (.indexing b plan listings))
      | some members => (w.concludeCycle b plan listings members, .finished (.ok ()))

/-- Plans the groups that a listing gives and begins to ask for their members. -/
def planCycle [Balance α] (w : World α) (site : Site) (t : Ticket) (cycle : Cycle)
    (listed : Except Error (List ScaleSet)) :
    World α × Progress CyclePhase (Except Error Unit) :=
  let w := { w with journal := w.journal.settle }
  let b : Brief := ⟨t, cycle, listed, w.cells.size⟩
  match listed.bind fun l ↦ cycle.candidates site l with
  | .error e => (w.leaveGate b [] none (.error e), .finished (.error e))
  | .ok candidates =>
    let (w, resolved) := w.newGroups candidates
    let plan := cycle.plan w.registry w.pinned resolved
    w.pollIndexing site b plan (plan.groups.map fun _ ↦ .waiting (.start site w.now))

def pollListing [Balance α] (w : World α) (site : Site) (t : Ticket) (cycle : Cycle)
    (i : Inquiry) : World α × Progress CyclePhase (Except Error Unit) :=
  match w.pollInquiry site .scaleSets i with
  | (w, .waiting i) => (w, .waiting (.listing i))
  | (w, .finished listed) => w.planCycle site t cycle listed

def pollCycle [Balance α] (w : World α) (site : Site) (t : Ticket) (cycle : Cycle)
    (phase : CyclePhase) : World α × Progress CyclePhase (Except Error Unit) :=
  match phase with
  | .queued =>
    if w.hasGate t then
      let w := { w with journal := w.journal.giveGate t }
      if cycle.needsListing site then w.pollListing site t cycle (.start site w.now)
      else w.planCycle site t cycle (.ok [])
    else (w, .waiting .queued)
  | .listing i => w.pollListing site t cycle i
  | .indexing b plan listings => w.pollIndexing site b plan listings

/-- Joins the gate and goes as far as that goes at once. -/
def startCycle [Balance α] (w : World α) (site : Site) (t : Ticket) (cycle : Cycle) :
    World α × Progress CyclePhase (Except Error Unit) :=
  (w.joinGate t).pollCycle site t cycle .queued

end World

namespace Listing

def wake : Listing → Option Nat
  | waiting i => i.wake
  | arrived _ => none

end Listing

namespace CyclePhase

def wake : CyclePhase → Option Nat
  | queued => none
  | listing i => i.wake
  | indexing _ _ listings => (listings.map Listing.wake).foldl earlier none

def isReady (w : World α) (t : Ticket) : CyclePhase → Bool
  | queued => w.hasGate t
  | phase => phase.wake.any (· ≤ w.now)

end CyclePhase

end NodeFleet.Fleet
