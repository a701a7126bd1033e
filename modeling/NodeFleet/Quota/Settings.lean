import NodeFleet.Error
/-!
Rate limit settings, and their resolution. A zero stands for a setting that was left out: it is
filled from an environment variable and then from a default at the top level, and from the top level
in each resource category.
-/

set_option autoImplicit false
set_option relaxedAutoImplicit false

namespace NodeFleet.Quota

open NodeFleet.Number

inductive Category
  | interface
  | virtualMachine
  | storageAccount
  | disk
  | virtualMachineScaleSet
  deriving DecidableEq, Repr

namespace Category

def all : List Category :=
  [interface, virtualMachine, storageAccount, disk, virtualMachineScaleSet]

theorem mem_all (c : Category) : c ∈ all := by
  cases c <;> decide

def name : Category → String
  | interface => "interface"
  | virtualMachine => "virtual_machine"
  | storageAccount => "storage_account"
  | disk => "disk"
  | virtualMachineScaleSet => "virtual_machine_scale_set"

end Category

/-- Rates in requests per second and bursts in requests, for reading and for writing. -/
structure Settings where
  enabled : Bool
  qps : Single
  bucket : UInt32
  qpsWrite : Single
  bucketWrite : UInt32
  deriving DecidableEq, Repr

namespace Settings

def unset : Settings := ⟨false, .zero, 0, .zero, 0⟩

instance : Inhabited Settings := ⟨unset⟩

end Settings

/-- Settings at the top level and, where there are any, of single categories. -/
structure Limits where
  defaults : Settings
  overrides : Category → Option Settings

namespace Limits

def unset : Limits := ⟨.unset, fun _ ↦ none⟩

instance : Inhabited Limits := ⟨unset⟩

def forCategory (l : Limits) (c : Category) : Settings :=
  (l.overrides c).getD l.defaults

end Limits

/-- The value of an environment variable, if it has one. -/
abbrev Environment := String → Option String

def readQpsVariable : String := "RATE_LIMIT_READ_QPS"

def readBucketsVariable : String := "RATE_LIMIT_READ_BUCKETS"

def writeQpsVariable : String := "RATE_LIMIT_WRITE_QPS"

def writeBucketsVariable : String := "RATE_LIMIT_WRITE_BUCKETS"

def readRate (text : String) : Except NumberFault Single :=
  (Binary.read .single text.toList).mapError .real

def readBurst (text : String) : Except NumberFault UInt32 :=
  ((readNat maxUnsigned32 text.toList).map Nat.toUInt32).mapError .integer

/-- The value that a variable gives; an empty one counts as absent. -/
def given? {α : Type} (env : Environment) (read : String → Except NumberFault α)
    (variableName : String) : Except Error (Option α) :=
  match env variableName with
  | none => .ok none
  | some text =>
    if text = "" then .ok none
    else
      match read text with
      | .ok value => .ok (some value)
      | .error fault => .error (.invalidRateLimitValue variableName text fault)

def defaultQps : Single := .ofNat 1

def defaultBucket : UInt32 := 5

namespace Settings

def fillQps (env : Environment) (s : Settings) : Except Error Settings :=
  if s.qps.isZero then
    (given? env readRate readQpsVariable).map fun v ↦ { s with qps := v.getD defaultQps }
  else .ok s

def fillBucket (env : Environment) (s : Settings) : Except Error Settings :=
  if s.bucket = 0 then
    (given? env readBurst readBucketsVariable).map fun v ↦
      { s with bucket := v.getD defaultBucket }
  else .ok s

def fillQpsWrite (env : Environment) (s : Settings) : Except Error Settings :=
  if s.qpsWrite.isZero then
    (given? env readRate writeQpsVariable).map fun v ↦ { s with qpsWrite := v.getD s.qps }
  else .ok s

def fillBucketWrite (env : Environment) (s : Settings) : Except Error Settings :=
  if s.bucketWrite = 0 then
    (given? env readBurst writeBucketsVariable).map fun v ↦
      { s with bucketWrite := v.getD s.bucket }
  else .ok s

/-- Runs the steps in order; a failing step ends the run and keeps what the earlier ones did. -/
def fillWith (s : Settings) : List (Settings → Except Error Settings) → Settings × Option Error
  | [] => (s, none)
  | step :: rest =>
    match step s with
    | .ok next => next.fillWith rest
    | .error e => (s, some e)

def fill (env : Environment) (s : Settings) : Settings × Option Error :=
  s.fillWith [fillQps env, fillBucket env, fillQpsWrite env, fillBucketWrite env]

/-- The settings with each zero taken from the top level. -/
def inherit (top s : Settings) : Settings where
  enabled := s.enabled
  qps := if s.qps.isZero then top.qps else s.qps
  bucket := if s.bucket = 0 then top.bucket else s.bucket
  qpsWrite := if s.qpsWrite.isZero then top.qpsWrite else s.qpsWrite
  bucketWrite := if s.bucketWrite = 0 then top.bucketWrite else s.bucketWrite

end Settings

namespace Limits

/-- Fills the top level and then every category. After an error the top level holds what was filled
before it and no category has changed. -/
def resolve (env : Environment) (l : Limits) : Limits × Option Error :=
  match l.defaults.fill env with
  | (top, some e) => ({ l with defaults := top }, some e)
  | (top, none) =>
    ({ defaults := top
       overrides := fun c ↦ some ((l.overrides c).elim top top.inherit) }, none)

end Limits

end NodeFleet.Quota
