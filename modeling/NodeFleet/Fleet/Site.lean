import NodeFleet.Config.Basic
import NodeFleet.Spec.Discovery
import NodeFleet.Text.Caseless
/-!
What a fleet is configured to be: where it looks, how long it waits for an answer, how often it
refreshes, and the specs of the groups it looks for. Only one type of machine is supported.
-/

set_option autoImplicit false
set_option relaxedAutoImplicit false

namespace NodeFleet.Fleet

structure Site where
  resourceGroup : String
  inventoryTimeout : Duration
  refreshInterval : Duration
  specs : List DiscoverySpec

namespace Site

/-- The site of a configuration without the groups it names. -/
def bare (c : Config) : Site :=
  ⟨c.resourceGroup, c.inventoryTimeout, c.refreshInterval, []⟩

/-- The site of a configuration, if its machine type is supported and its specs are well formed. -/
def ofConfig (c : Config) : Except Error Site :=
  if Text.SameName c.vmType Config.vmTypeSupported then
    (DiscoverySpec.parseAll c.nodeGroups c.autoDiscovery).map fun specs ↦ { bare c with specs }
  else .error (.unsupportedVmType c.vmType)

def explicitSpecs (s : Site) : List ExplicitSpec :=
  s.specs.filterMap DiscoverySpec.explicit?

def selectors (s : Site) : List Selector :=
  s.specs.filterMap DiscoverySpec.selector?

def text (s : Site) : String :=
  "Manager (" ++ s.resourceGroup ++ ")"

def refresherText (s : Site) : String :=
  "NodeGroupRefresher (" ++ s.text ++ ")"

end Site

end NodeFleet.Fleet
