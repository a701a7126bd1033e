import NodeFleet.Discovery.Plan
import NodeFleet.Discovery.Resolve
import NodeFleet.Fleet.Site
/-!
The journal of a fleet: which discovery cycles got the gate, what each of them went by and came to,
and the writes made to the registry besides them. It is kept for whoever looks back on a history;
no operation reads it.
-/

set_option autoImplicit false
set_option relaxedAutoImplicit false

namespace NodeFleet.Fleet

open NodeFleet.Discovery

/-- The number of an activity, by which it stands in lines. -/
abbrev Ticket := Nat

inductive Cycle
  | explicit (specs : List ExplicitSpec)
  | auto

namespace Cycle

/-- A cycle that looks for nothing asks for no listing. -/
def needsListing (site : Site) : Cycle → Bool
  | explicit specs => !specs.isEmpty
  | auto => !site.selectors.isEmpty

def candidates (site : Site) (scaleSets : List ScaleSet) : Cycle → Except Error (List Candidate)
  | explicit specs => .ok (explicitCandidates specs scaleSets)
  | auto => selectedCandidates site.selectors scaleSets

def plan (registry : Snapshot) (pinned : List String) (resolved : List NodeGroup) : Cycle → Plan
  | explicit _ => .explicit registry resolved
  | auto => .auto registry pinned resolved

end Cycle

/-- A change made to the registry directly, by no cycle. -/
inductive Write
  | register (g : NodeGroup)
  | unregister (name : String)
  | replace (groups : List NodeGroup) (instances : Table String)

/-- What a cycle goes by once its listing is answered. -/
structure Brief where
  ticket : Ticket
  cycle : Cycle
  /-- The answer to its listing; the empty listing if it asked for none. -/
  listed : Except Error (List ScaleSet)
  /-- The serial number of the first handle that it makes. -/
  serial : Nat

/-- A cycle that has come to its end. -/
structure Turn where
  brief : Brief
  /-- The answers that it got about members, by the name of the group. -/
  told : List (String × Except Error (List Member))
  /-- The direct writes made after it had planned. -/
  meanwhile : List Write
  installed : Option Snapshot
  result : Except Error Unit

inductive Deed
  | write (x : Write)
  | turn (t : Turn)

structure Journal where
  /-- The tickets of the cycles that got the gate, in the order in which they got it. -/
  holders : List Ticket
  deeds : List Deed
  /-- The direct writes made after the last cycle ended or the present one planned. -/
  pending : List Write

namespace Journal

def empty : Journal := ⟨[], [], []⟩

def giveGate (j : Journal) (t : Ticket) : Journal :=
  { j with holders := j.holders ++ [t] }

def write (j : Journal) (x : Write) : Journal :=
  { j with pending := j.pending ++ [x] }

/-- Enters the direct writes that came before a cycle planned. -/
def settle (j : Journal) : Journal :=
  { j with deeds := j.deeds ++ j.pending.map .write, pending := [] }

/-- Enters a cycle, with the direct writes made since it planned. -/
def close (j : Journal) (b : Brief) (told : List (String × Except Error (List Member)))
    (installed : Option Snapshot) (result : Except Error Unit) : Journal :=
  { j with deeds := j.deeds ++ [.turn ⟨b, told, j.pending, installed, result⟩], pending := [] }

end Journal

end NodeFleet.Fleet
