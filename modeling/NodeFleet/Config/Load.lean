import NodeFleet.Config.Basic
import NodeFleet.Files
/-!
Loading a configuration from the file that the environment names.
-/

set_option autoImplicit false
set_option relaxedAutoImplicit false

namespace NodeFleet.Config

open NodeFleet.Quota

def pathVariable : String := "APP_CONFIG"

def defaultPath : String := "config.yml"

inductive LoadError
  | unopened (path : String) (fault : FileFault)
  | unloaded (path : String) (cause : ParseError)

def path (env : Environment) : String :=
  (env pathVariable).getD defaultPath

/-- Reads the configuration file. What opens but cannot be read is no document. -/
def load (env : Environment) (files : Files) : Except LoadError Config :=
  let path := path env
  match files.openPath path with
  | .error fault => .error (.unopened path fault)
  | .ok .directory => .error (.unloaded path (.document .malformed))
  | .ok (.file content) => (parse env content).mapError (.unloaded path)

def LoadError.message : LoadError → String
  | unopened path _ => "Failed to open config file " ++ path
  | unloaded path _ => "Failed to load config file " ++ path

/-- The outer wording of a failed reading of a document. -/
def unreadBody : String := "Failed to unmarshal config body"

end NodeFleet.Config
