import NodeFleet.Cloud.Basic
import NodeFleet.Files
import NodeFleet.Markup.Decode
/-!
Inventories kept in files, one for each resource group: a list of scale sets with their members.
-/

set_option autoImplicit false
set_option relaxedAutoImplicit false

namespace NodeFleet

open NodeFleet.Markup NodeFleet.Number

structure InventoryRecord where
  scaleSet : ScaleSet
  members : List Member

namespace InventoryRecord

/-! Members. -/

structure MemberDraft where
  id : Option String
  instanceId : Option String

def memberField (outer : Place) (d : MemberDraft) (name : String) (here : Place) (n : Node) :
    Reading MemberDraft := do
  if name = "id" then
    outer.once name d.id
    pure { d with id := some (← here.text n "a string") }
  else if name = "instance_id" then
    outer.once name d.instanceId
    pure { d with instanceId := some (← here.text n "a string") }
  else pure d

def memberOfItems (outer inner : Place) : List Node → Reading Member
  | [] => outer.misfit (.wrongLength 0 "struct ScaleSetVm with 2 elements")
  | [id] => do
    pure ⟨← (inner.at_ (.index 0)).text id "a string", ""⟩
  | id :: instanceId :: rest => do
    let id ← (inner.at_ (.index 0)).text id "a string"
    let instanceId ← (inner.at_ (.index 1)).text instanceId "a string"
    if rest.isEmpty then pure ⟨id, instanceId⟩
    else outer.misfit (.wrongLength (rest.length + 2) "sequence of 2 elements")

/-- A member is a record, or a list of its fields; other fields are not looked at. -/
def readMember (p : Place) (n : Node) : Reading Member := do
  match ← p.follow n with
  | .sequence items => memberOfItems p (← p.inside) items
  | n =>
    let d ← p.record ⟨none, none⟩ "struct ScaleSetVm" n memberField
    match d.id with
    | some id => pure ⟨id, d.instanceId.getD ""⟩
    | none => p.misfit (.missingField "id")

/-! Scale sets. -/

structure Draft where
  members : Option (List Member)
  others : List (String × Value)

def readField (outer : Place) (d : Draft) (name : String) (here : Place) (n : Node) :
    Reading Draft := do
  if name = "vms" then
    outer.once name d.members
    pure { d with members := some (← here.list n readMember) }
  else pure { d with others := d.others ++ [(name, ← here.value n)] }

def tagsOfEntries (tags : Table String) : List (Value × Value) → Except Misfit (Table String)
  | [] => .ok tags
  | (k, v) :: rest => do
    let key ← k.toText
    let value ← v.toText
    tagsOfEntries (tags.insert key value) rest

def tagsOfValue (v : Value) : Except Misfit (Table String) :=
  match v with
  | .map entries => tagsOfEntries .empty entries
  | v => .error (.invalidType v.found "a map")

structure ScaleSetDraft where
  name : Option String
  tags : Option (Table String)
  capacity : Option Nat

def once {α : Type} (name : String) (earlier : Option α) : Except Misfit Unit :=
  if earlier.isSome then .error (.duplicateField name) else .ok ()

def scaleSetOfFields (d : ScaleSetDraft) : List (String × Value) → Except Misfit ScaleSet
  | [] =>
    match d.name with
    | some name => .ok ⟨name, d.tags.getD .empty, d.capacity.getD 0⟩
    | none => .error (.missingField "name")
  | (field, v) :: rest => do
    match field with
    | "name" =>
      once field d.name
      scaleSetOfFields { d with name := some (← v.toText) } rest
    | "tags" =>
      once field d.tags
      scaleSetOfFields { d with tags := some (← tagsOfValue v) } rest
    | "capacity" =>
      once field d.capacity
      scaleSetOfFields { d with capacity := some (← v.toNat maxUnsigned64 "u64") } rest
    | _ => scaleSetOfFields d rest

def read (p : Place) (n : Node) : Reading InventoryRecord := do
  let d ← p.record ⟨none, []⟩ "struct ScaleSetRecord" n readField
  let scaleSet ← p.lift (scaleSetOfFields ⟨none, none, none⟩ d.others)
  pure ⟨scaleSet, d.members.getD []⟩

end InventoryRecord

def readInventory (text : String) : Except Fault (List InventoryRecord) :=
  readDocument text fun p n ↦ p.list n InventoryRecord.read

/-- A directory of inventory files. -/
structure InventoryDirectory where
  path : String

namespace InventoryDirectory

/-- The directory at a path, if there is one. -/
def open? (files : Files) (path : String) : Option InventoryDirectory :=
  if files.isDirectory path then some ⟨path⟩ else none

def missingMessage (path : String) : String :=
  "Inventory directory " ++ path ++ " does not exist"

def text (d : InventoryDirectory) : String :=
  "FileScaleSetClient (" ++ d.path ++ ")"

def filePath (d : InventoryDirectory) (resourceGroup : String) : String :=
  Files.join d.path (resourceGroup ++ ".yml")

def records (d : InventoryDirectory) (files : Files) (resourceGroup : String) :
    Except CloudError (List InventoryRecord) :=
  let path := d.filePath resourceGroup
  match files.readText path with
  | .error cause => .error (.unreadable path cause)
  | .ok text => (readInventory text).mapError (.malformed path)

def record (d : InventoryDirectory) (files : Files) (resourceGroup name : String) :
    Except CloudError InventoryRecord := do
  match (← d.records files resourceGroup).find? fun r ↦ r.scaleSet.name = name with
  | some r => pure r
  | none => .error (.scaleSetNotFound resourceGroup name)

/-- The answer that the files give now; a scale set is looked up by its very name. -/
def answer (d : InventoryDirectory) (files : Files) (resourceGroup : String) :
    (q : Query) → Except CloudError q.Answer
  | .scaleSets => (d.records files resourceGroup).map fun rs ↦ rs.map (·.scaleSet)
  | .scaleSet name => (d.record files resourceGroup name).map (·.scaleSet)
  | .members name => (d.record files resourceGroup name).map (·.members)

end InventoryDirectory

end NodeFleet
