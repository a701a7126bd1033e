import NodeFleet.Cloud.Basic
/-!
A cloud account held in memory, with a latency, a failure that can be switched on, and counts of the
calls made. A scale set is looked up by its very name.
-/

set_option autoImplicit false
set_option relaxedAutoImplicit false

namespace NodeFleet

structure CallCounts where
  scaleSets : Nat
  scaleSet : Nat
  members : Nat
  deriving DecidableEq, Repr

def CallCounts.count (c : CallCounts) : Query → CallCounts
  | .scaleSets => { c with scaleSets := c.scaleSets + 1 }
  | .scaleSet _ => { c with scaleSet := c.scaleSet + 1 }
  | .members _ => { c with members := c.members + 1 }

structure Account where
  /-- Scale sets by resource group. -/
  scaleSets : Table (List ScaleSet)
  /-- Members by resource group and scale set. -/
  members : List ((String × String) × List Member)
  failure : Option String
  /-- Milliseconds from a call to its answer. -/
  latency : Nat
  calls : CallCounts

namespace Account

def empty : Account := ⟨.empty, [], none, 0, ⟨0, 0, 0⟩⟩

def inGroup (a : Account) (resourceGroup : String) : List ScaleSet :=
  (a.scaleSets.get? resourceGroup).getD []

def find (a : Account) (resourceGroup name : String) : Except CloudError ScaleSet :=
  match (a.inGroup resourceGroup).find? fun s ↦ s.name = name with
  | some s => .ok s
  | none => .error (.scaleSetNotFound resourceGroup name)

def membersOf (a : Account) (resourceGroup name : String) : List Member :=
  match a.members.find? fun e ↦ e.1 = (resourceGroup, name) with
  | some e => e.2
  | none => []

def lookUp (a : Account) (resourceGroup : String) : (q : Query) → Except CloudError q.Answer
  | .scaleSets => .ok (a.inGroup resourceGroup)
  | .scaleSet name => a.find resourceGroup name
  | .members name => (a.find resourceGroup name).map fun _ ↦ a.membersOf resourceGroup name

/-- The answer that the account gives now; while it fails, it answers nothing. -/
def answer (a : Account) (resourceGroup : String) (q : Query) : Except CloudError q.Answer :=
  match a.failure with
  | some reason => .error (.unavailable reason)
  | none => a.lookUp resourceGroup q

def setScaleSets (a : Account) (resourceGroup : String) (l : List ScaleSet) : Account :=
  { a with scaleSets := a.scaleSets.insert resourceGroup l }

def setMembers (a : Account) (resourceGroup name : String) (l : List Member) : Account :=
  { a with
    members := ((resourceGroup, name), l) ::
      a.members.filter fun e ↦ e.1 ≠ (resourceGroup, name) }

/-- Sets the capacity of every scale set of the name. -/
def setCapacity (a : Account) (resourceGroup name : String) (capacity : Nat) : Account :=
  match a.scaleSets.get? resourceGroup with
  | none => a
  | some l =>
    a.setScaleSets resourceGroup
      (l.map fun s ↦ if s.name = name then { s with capacity } else s)

def setFailure (a : Account) (reason : Option String) : Account :=
  { a with failure := reason }

end Account

end NodeFleet
