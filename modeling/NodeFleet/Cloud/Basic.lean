import NodeFleet.Markup.Fault
import NodeFleet.Table
/-!
Scale sets and their members as a cloud account shows them, the questions one can ask about them,
and the ways in which an account fails to answer.
-/

set_option autoImplicit false
set_option relaxedAutoImplicit false

namespace NodeFleet

structure ScaleSet where
  name : String
  tags : Table String
  capacity : Nat

/-- A member machine of a scale set. -/
structure Member where
  id : String
  instanceId : String
  deriving DecidableEq, Repr

/-- A question to the inventory of one resource group. -/
inductive Query
  | scaleSets
  | scaleSet (name : String)
  | members (name : String)
  deriving DecidableEq, Repr

namespace Query

abbrev Answer : Query → Type
  | scaleSets => List ScaleSet
  | scaleSet _ => ScaleSet
  | members _ => List Member

def operation : Query → String
  | scaleSets => "list scale sets"
  | scaleSet _ => "get scale set"
  | members _ => "list scale set vms"

end Query

inductive FileFault
  | notFound
  | notADirectory
  | isADirectory
  | invalidData
  | invalidInput
  | nameTooLong
  deriving DecidableEq, Repr

inductive CloudError
  | scaleSetNotFound (resourceGroup name : String)
  | unreadable (path : String) (cause : FileFault)
  | malformed (path : String) (cause : Markup.Fault)
  | unavailable (reason : String)
  deriving Repr

def CloudError.message : CloudError → String
  | .scaleSetNotFound resourceGroup name =>
    "Scale set " ++ name ++ " not found in resource group " ++ resourceGroup
  | .unreadable path _ => "Failed to read inventory " ++ path
  | .malformed path _ => "Failed to deserialize inventory " ++ path
  | .unavailable reason => "Inventory unavailable: " ++ reason

end NodeFleet
