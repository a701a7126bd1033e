import NodeFleet.Markup.Decode
import NodeFleet.Quota.Settings
/-!
Rate limit settings in a configuration: each field has a long and a short name, the top level
stands among the other fields of the configuration, and each category is a record of its own.
-/

set_option autoImplicit false
set_option relaxedAutoImplicit false

namespace NodeFleet.Config

open NodeFleet.Markup NodeFleet.Quota NodeFleet.Number

inductive LimitField
  | enabled
  | qps
  | bucket
  | qpsWrite
  | bucketWrite
  deriving DecidableEq, Repr

namespace LimitField

def all : List LimitField := [enabled, qps, bucket, qpsWrite, bucketWrite]

def name : LimitField → String
  | enabled => "cloudProviderRateLimit"
  | qps => "cloudProviderRateLimitQPS"
  | bucket => "cloudProviderRateLimitBucket"
  | qpsWrite => "cloudProviderRateLimitQPSWrite"
  | bucketWrite => "cloudProviderRateLimitBucketWrite"

def shortName : LimitField → String
  | enabled => "rateLimitEnabled"
  | qps => "qps"
  | bucket => "bucketSize"
  | qpsWrite => "qpsWrite"
  | bucketWrite => "bucketSizeWrite"

def ofName? (s : String) : Option LimitField :=
  all.find? fun f ↦ s = f.name || s = f.shortName

def set (f : LimitField) (v : Value) (s : Settings) : Except Misfit Settings :=
  let count := (v.toNat maxUnsigned32 "u32").map Nat.toUInt32
  match f with
  | enabled => v.toBoolean.map fun b ↦ { s with enabled := b }
  | qps => v.toSingle.map fun x ↦ { s with qps := x }
  | bucket => count.map fun n ↦ { s with bucket := n }
  | qpsWrite => v.toSingle.map fun x ↦ { s with qpsWrite := x }
  | bucketWrite => count.map fun n ↦ { s with bucketWrite := n }

end LimitField

/-- Sets fields in order; a field may occur once, under either name. -/
def setLimitFields (seen : List LimitField) (s : Settings) :
    List (LimitField × Value) → Except Misfit Settings
  | [] => .ok s
  | (f, v) :: rest =>
    if f ∈ seen then .error (.duplicateField f.name)
    else
      match f.set v s with
      | .ok next => setLimitFields (f :: seen) next rest
      | .error cause => .error cause

/-- The settings of a record's entries; a key may be a field's position, and others are passed. -/
def settingsOfEntries (seen : List LimitField) (s : Settings) :
    List (Value × Value) → Except Misfit Settings
  | [] => .ok s
  | (key, v) :: rest =>
    match key.fieldOf (LimitField.all.map LimitField.name) with
    | .error cause => .error cause
    | .ok name =>
      match name.bind LimitField.ofName? with
      | none => settingsOfEntries seen s rest
      | some f =>
        if f ∈ seen then .error (.duplicateField f.name)
        else
          match f.set v s with
          | .ok next => settingsOfEntries (f :: seen) next rest
          | .error cause => .error cause

/-- Settings as a record, as a list of its fields, or as nothing. -/
def settingsOfValue (v : Value) : Except Misfit (Option Settings) :=
  match v with
  | .nothing => .ok none
  | .map entries => (settingsOfEntries [] .unset entries).map some
  | .sequence items =>
    match setLimitFields [] .unset (LimitField.all.zip items) with
    | .error cause => .error cause
    | .ok s =>
      let count := LimitField.all.length
      if count < items.length then
        .error (.wrongLength items.length (toString count ++ " elements in sequence"))
      else .ok (some s)
  | v => .error (.invalidType v.found "struct RateLimitConfig")

def categoryField : Category → String
  | .interface => "interfaceRateLimit"
  | .virtualMachine => "virtualMachineRateLimit"
  | .storageAccount => "storageAccountRateLimit"
  | .disk => "diskRateLimit"
  | .virtualMachineScaleSet => "virtualMachineScaleSetRateLimit"

def categoryOf? (name : String) : Option Category :=
  Category.all.find? fun c ↦ name = categoryField c

/-- The categories' settings, in the order of the fields; one that occurs twice is refused. -/
def categorySettings (sofar : List (Category × Option Settings)) :
    List (String × Value) → Except Misfit (List (Category × Option Settings))
  | [] => .ok sofar
  | (name, v) :: rest =>
    match categoryOf? name with
    | none => categorySettings sofar rest
    | some c =>
      if sofar.any fun e ↦ e.1 = c then .error (.duplicateField name)
      else
        match settingsOfValue v with
        | .ok s => categorySettings ((c, s) :: sofar) rest
        | .error cause => .error cause

/-- The rate limits among the fields of a configuration: categories first, then the top level. -/
def limitsOfFields (fields : List (String × Value)) : Except Misfit Limits := do
  let categories ← categorySettings [] fields
  let top := fields.filterMap fun e ↦ (LimitField.ofName? e.1).map (·, e.2)
  let defaults ← setLimitFields [] .unset top
  pure ⟨defaults, fun c ↦ (categories.find? fun e ↦ e.1 = c).bind Prod.snd⟩

end NodeFleet.Config
