import NodeFleet.Error
import NodeFleet.Registry
/-!
What a discovery cycle makes of the groups it resolved: the list of groups to install, whether it
differs from the registered one, and the index of the groups' members. Explicitly configured names
are pinned: auto discovery neither changes nor evicts their groups.
-/

set_option autoImplicit false
set_option relaxedAutoImplicit false

namespace NodeFleet.Discovery

structure Plan where
  groups : List NodeGroup
  changed : Bool
  /-- The lower-case names to be pinned. -/
  pins : List String

/-- Places the groups of explicit specs over the registered ones. -/
def Plan.explicit (registered : Snapshot) (resolved : List NodeGroup) : Plan :=
  let (groups, changed) := placeGroups registered.groups resolved
  ⟨groups, changed, resolved.map fun g ↦ Text.lower g.name⟩

/-- Places the selected groups that are not pinned, and evicts those neither selected nor pinned. -/
def Plan.auto (registered : Snapshot) (pinned : List String) (resolved : List NodeGroup) : Plan :=
  let selected := resolved.map fun g ↦ Text.lower g.name
  let (placed, changed) :=
    placeGroups registered.groups (resolved.filter fun g ↦ Text.lower g.name ∉ pinned)
  let kept := placed.filter fun g ↦ Text.lower g.name ∈ selected ∨ Text.lower g.name ∈ pinned
  ⟨kept, changed || kept.length != placed.length, []⟩

/-- The members that an answer gives; a scale set that is gone has none. -/
def membersOrNone (answer : Except Error (List Member)) : Except Error (List Member) :=
  match answer with
  | .error (.queryFailed _ _ (.scaleSetNotFound _ _)) => .ok []
  | answer => answer

/-- The group of each member, by lower-case id; a later group takes a member from an earlier one. -/
def memberIndex (listings : List (String × List Member)) : Table String :=
  listings.foldl
    (fun index l ↦ l.2.foldl (fun index m ↦ index.insert (Text.lower m.id) l.1) index) .empty

/-- The snapshot of the planned groups and the index, unless neither differs from what is
registered. -/
def Plan.installed? (p : Plan) (registered : Snapshot) (index : Table String) : Option Snapshot :=
  if !p.changed && registered.instances.agrees index then none
  else some (registered.replace p.groups index)

def Plan.commit (p : Plan) (registered : Snapshot) (index : Table String) : Snapshot :=
  (p.installed? registered index).getD registered

end NodeFleet.Discovery
