import NodeFleet.Config.Load
import NodeFleet.Fleet.Schedule
/-!
The command line: loads the configuration, discovers the node groups, lists them, and then goes on
refreshing them. The files are read again every second.
-/

set_option autoImplicit false
set_option relaxedAutoImplicit false

namespace NodeFleet.CommandLine

open NodeFleet.Fleet NodeFleet.Number NodeFleet.Quota

def consulted : List String :=
  [Config.pathVariable, readQpsVariable, readBucketsVariable, writeQpsVariable,
    writeBucketsVariable]

def readEnvironment : IO Environment := do
  let mut given : Table String := .empty
  for name in consulted do
    if let some value ← IO.getEnv name then
      given := given.insert name value
  return given.get?

/-- Takes in what stands at a path, if anything does. -/
def takeIn (files : Files) (path : String) : IO Files := do
  try
    let content ← IO.FS.readBinFile path
    return files.write path content
  catch _ =>
    try
      discard <| IO.FS.realPath (path ++ "/.")
      return files.write (path ++ "/") .empty
    catch _ => return files

def readFiles (paths : List String) : IO Files :=
  paths.foldlM takeIn .empty

def inventoryPaths (c : Config) : List String :=
  match c.provider with
  | .mock => []
  | .file path => [path, InventoryDirectory.filePath ⟨path⟩ c.resourceGroup]

def missingMessage (c : Config) : String :=
  match c.provider with
  | .mock => ""
  | .file path => InventoryDirectory.missingMessage path

/-- More rounds than any wait takes. -/
def rounds : Nat := 10000000

def failed (message : String) : IO UInt32 := do
  IO.eprintln message
  return 1

def listGroups (f : Fleet Double) : IO Unit := do
  f.world.registry.groups.forM fun g ↦ IO.println g.text
  (← IO.getStdout).flush

partial def tend (c : Config) (f : Fleet Double) : IO Unit := do
  let files ← readFiles (inventoryPaths c)
  let (next, _) := (f.step (.files files)).perform rounds (.pause 1000)
  if next.world.registry.version ≠ f.world.registry.version then listGroups next
  IO.sleep 1000
  tend c next.forgetPast

def manage (c : Config) (site : Site) (world : World Double) : IO UInt32 := do
  match (Fleet.start site world).perform rounds .create with
  | (f, some .done) =>
    listGroups f
    tend c (f.begin (.refreshEvery c.refreshInterval.ceilMillis))
    return 0
  | (_, some (.failed e)) =>
    IO.eprintln "Initial node group discovery failed"
    failed e.message
  | _ => return 1

def run : IO UInt32 := do
  let env ← readEnvironment
  match Config.load env (← readFiles [Config.path env]) with
  | .error e => failed e.message
  | .ok c =>
    let files ← readFiles (inventoryPaths c)
    match Cloud.ofProvider? files c.provider, Site.ofConfig c with
    | none, _ => failed (missingMessage c)
    | _, .error e => failed e.message
    | some cloud, .ok site => manage c site (.start cloud files (some (.ofLimits c.limits 0)))

end NodeFleet.CommandLine

def main : IO UInt32 :=
  NodeFleet.CommandLine.run
