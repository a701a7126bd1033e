import NodeFleet.Config.Limits
import NodeFleet.Config.Provider
import NodeFleet.Duration.Phrase
import NodeFleet.Table
/-!
The configuration of a fleet, read from a document and resolved against the environment.
-/

set_option autoImplicit false
set_option relaxedAutoImplicit false

namespace NodeFleet

open NodeFleet.Markup NodeFleet.Quota

structure Config where
  cloud : String
  tenantId : String
  subscriptionId : String
  resourceGroup : String
  location : String
  vmType : String
  limits : Limits
  nodeGroups : List String
  autoDiscovery : List String
  refreshInterval : Duration
  inventoryTimeout : Duration
  provider : Config.Provider

namespace Config

def vmTypeSupported : String := "vmss"

def defaultRefreshInterval : Duration := .ofSeconds 60

def defaultInventoryTimeout : Duration := .ofSeconds 30

def textFields : List String :=
  ["cloud", "tenantId", "subscriptionId", "resourceGroup", "location", "vmType"]

def listFields : List String := ["nodeGroups", "nodeGroupAutoDiscovery"]

def durationFields : List String := ["refreshInterval", "inventoryTimeout"]

/-- The fields read so far; those of no known name wait for the rate limits. -/
structure Draft where
  texts : Table String
  lists : Table (List String)
  durations : Table Duration
  provider : Option Provider
  others : List (String × Value)

namespace Draft

def empty : Draft := ⟨.empty, .empty, .empty, none, []⟩

def readDuration (p : Place) (n : Node) : Reading Duration := do
  let s ← p.text n "a duration"
  match Duration.ofPhrase? s with
  | some d => pure d
  | none => p.misfit (.invalidValue (.text s) "a duration")

/-- Reads one field; `outer` is the place of the configuration, `here` that of the value. -/
def readField (outer : Place) (d : Draft) (name : String) (here : Place) (n : Node) :
    Reading Draft := do
  if name ∈ textFields then
    outer.once name (d.texts.get? name)
    pure { d with texts := d.texts.insert name (← here.text n "a string") }
  else if name ∈ listFields then
    outer.once name (d.lists.get? name)
    let items ← here.list n fun p n ↦ p.text n "a string"
    pure { d with lists := d.lists.insert name items }
  else if name ∈ durationFields then
    outer.once name (d.durations.get? name)
    pure { d with durations := d.durations.insert name (← readDuration here n) }
  else if name = "scaleSetProvider" then
    outer.once name d.provider
    pure { d with provider := some (← readProvider outer here n) }
  else pure { d with others := d.others ++ [(name, ← here.value n)] }

def finish (d : Draft) : Except Misfit Config := do
  let text (name fallback : String) : String := (d.texts.get? name).getD fallback
  match d.texts.get? "resourceGroup" with
  | none => .error (.missingField "resourceGroup")
  | some resourceGroup =>
    let limits ← limitsOfFields d.others
    pure {
      cloud := text "cloud" ""
      tenantId := text "tenantId" ""
      subscriptionId := text "subscriptionId" ""
      resourceGroup
      location := text "location" ""
      vmType := text "vmType" vmTypeSupported
      limits
      nodeGroups := (d.lists.get? "nodeGroups").getD []
      autoDiscovery := (d.lists.get? "nodeGroupAutoDiscovery").getD []
      refreshInterval := (d.durations.get? "refreshInterval").getD defaultRefreshInterval
      inventoryTimeout := (d.durations.get? "inventoryTimeout").getD defaultInventoryTimeout
      provider := d.provider.getD .mock }

end Draft

def readRoot (p : Place) (n : Node) : Reading Config := do
  let d ← p.record Draft.empty "struct Config" n Draft.readField
  p.lift d.finish

inductive ParseError
  | document (fault : Fault)
  | limits (error : Error)

/-- Reads a configuration and resolves its rate limits against the environment. -/
def parse (env : Environment) (bytes : ByteArray) : Except ParseError Config :=
  match String.fromUTF8? bytes with
  | none => .error (.document .malformed)
  | some text =>
    match readDocument text readRoot with
    | .error fault => .error (.document fault)
    | .ok config =>
      match config.limits.resolve env with
      | (limits, none) => .ok { config with limits }
      | (_, some e) => .error (.limits e)

end Config

end NodeFleet
