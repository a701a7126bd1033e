import NodeFleet.Duration
import NodeFleet.Text.Caseless
/-!
Node groups: scale sets seen as groups of nodes with bounds on their size. A group is a handle, told
from others by its serial number; its last known size is kept under that number.
-/

set_option autoImplicit false
set_option relaxedAutoImplicit false

namespace NodeFleet

structure Bounds where
  min : Nat
  max : Nat
  deriving DecidableEq, Repr

def defaultSizePeriod : Duration := .ofSeconds 15

structure NodeGroup where
  serial : Nat
  name : String
  bounds : Bounds
  /-- How long a size that was asked for counts as known. -/
  sizePeriod : Duration
  deriving DecidableEq, Repr

namespace NodeGroup

abbrev Named (g : NodeGroup) (name : String) : Prop :=
  Text.SameName g.name name

def text (g : NodeGroup) : String :=
  "ScaleSet " ++ g.name ++ " [" ++ toString g.bounds.min ++ ".." ++ toString g.bounds.max ++ "]"

end NodeGroup

end NodeFleet
