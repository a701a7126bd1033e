import NodeFleet.Spec.Explicit
import NodeFleet.Spec.Selector
/-!
The specs of a configuration, explicit ones before selectors, each kind in its own order.
-/

set_option autoImplicit false
set_option relaxedAutoImplicit false

namespace NodeFleet

inductive DiscoverySpec
  | explicit (spec : ExplicitSpec)
  | selector (selector : Selector)

namespace DiscoverySpec

/-- Reads explicit specs, then selectors, and stops at the first that is malformed. -/
def parseAll (explicit selectors : List String) : Except Error (List DiscoverySpec) := do
  let named ← ExplicitSpec.parseAll explicit
  let matched ← Selector.parseAll selectors
  pure (named.map .explicit ++ matched.map .selector)

def explicit? : DiscoverySpec → Option ExplicitSpec
  | explicit spec => some spec
  | selector _ => none

def selector? : DiscoverySpec → Option Selector
  | explicit _ => none
  | selector s => some s

end DiscoverySpec

end NodeFleet
