import NodeFleet.NodeGroup
import NodeFleet.Table
/-!
Versioned snapshots of the registered node groups and of the instances that belong to them. A name
is registered once, whatever its case; every change makes the next version.
-/

set_option autoImplicit false
set_option relaxedAutoImplicit false

namespace NodeFleet

/-- Puts a group in the place of the group of its name, or at the end, and tells whether anything
changed. A group with the same bounds stays as it is. -/
def placeGroup (g : NodeGroup) : List NodeGroup → List NodeGroup × Bool
  | [] => ([g], true)
  | h :: rest =>
    if h.Named g.name then
      if h.bounds = g.bounds then (h :: rest, false) else (g :: rest, true)
    else (h :: (placeGroup g rest).1, (placeGroup g rest).2)

/-- Places groups one after the other, and tells whether anything changed on the way. -/
def placeGroups (groups : List NodeGroup) : List NodeGroup → List NodeGroup × Bool
  | [] => (groups, false)
  | g :: rest =>
    let (placed, changed) := placeGroup g groups
    let (all, changedLater) := placeGroups placed rest
    (all, changed || changedLater)

structure Snapshot where
  version : Nat
  groups : List NodeGroup
  /-- The group's name for each instance, by the lower-case id. -/
  instances : Table String

namespace Snapshot

def empty : Snapshot := ⟨0, [], .empty⟩

def find? (s : Snapshot) (name : String) : Option NodeGroup :=
  s.groups.find? fun g ↦ g.Named name

/-- The group that an instance belongs to. -/
def owner? (s : Snapshot) (instanceId : String) : Option NodeGroup :=
  (s.instances.get? (Text.lower instanceId)).bind s.find?

def replace (s : Snapshot) (groups : List NodeGroup) (instances : Table String) : Snapshot :=
  ⟨s.version + 1, groups, instances⟩

def register (s : Snapshot) (g : NodeGroup) : Snapshot × Bool :=
  match placeGroup g s.groups with
  | (groups, true) => ({ s with version := s.version + 1, groups }, true)
  | (_, false) => (s, false)

def unregister (s : Snapshot) (name : String) : Snapshot × Bool :=
  let groups := s.groups.filter fun g ↦ ¬ g.Named name
  if groups.length = s.groups.length then (s, false)
  else ({ s with version := s.version + 1, groups }, true)

end Snapshot

end NodeFleet
