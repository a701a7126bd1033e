import NodeFleet.Cloud.Basic
import NodeFleet.Duration
import NodeFleet.Number.Decimal
/-!
The failures of discovery: a cause with what it is about, and its wording.
-/

set_option autoImplicit false
set_option relaxedAutoImplicit false

namespace NodeFleet

open NodeFleet.Number

/-- The first check that an explicit group spec fails. -/
inductive SpecFault
  | fieldCount
  | minSize
  | maxSize
  | order
  | emptyName
  deriving DecidableEq, Repr

def SpecFault.message : SpecFault → String
  | .fieldCount => "expected <min>:<max>:<name>"
  | .minSize => "min size must be a non-negative integer"
  | .maxSize => "max size must be a non-negative integer"
  | .order => "max size must be greater than min size"
  | .emptyName => "name must not be empty"

/-- Why the text of a setting could not be read as a number. -/
inductive NumberFault
  | integer (fault : IntegerFault)
  | real (fault : RealFault)
  deriving DecidableEq, Repr

def NumberFault.message : NumberFault → String
  | .integer fault => fault.message
  | .real fault => fault.message

inductive Error
  | malformedSpec (spec : String) (fault : SpecFault)
  | unsupportedDiscoveryForm (spec : String)
  | invalidSelectorPair (spec pair : String)
  | queryFailed (query : Query) (resourceGroup : String) (source : CloudError)
  | deadlineExceeded (query : Query) (timeout : Duration)
  | missingMinimumSize (name : String)
  | missingMaximumSize (name : String)
  | invalidMinimumSize (name : String) (fault : IntegerFault)
  | invalidMaximumSize (name : String) (fault : IntegerFault)
  | negativeMinimumSize (name : String) (min : Int)
  | maximumNotGreaterThanMinimum (name : String) (min max : Int)
  | invalidRateLimitValue (variableName value : String) (fault : NumberFault)
  | unsupportedVmType (vmType : String)
  deriving Repr

def Error.message : Error → String
  | .malformedSpec spec fault =>
    "Malformed node group spec " ++ Text.quoted spec ++ ": " ++ fault.message
  | .unsupportedDiscoveryForm spec =>
    "Unsupported auto discovery spec " ++ Text.quoted spec ++ ", expected the `label:` prefix"
  | .invalidSelectorPair spec pair =>
    "Invalid selector pair " ++ Text.quoted pair ++ " in auto discovery spec " ++ Text.quoted spec
  | .queryFailed query resourceGroup _ =>
    "Failed to " ++ query.operation ++ " in resource group " ++ resourceGroup
  | .deadlineExceeded query timeout =>
    "Failed to " ++ query.operation ++ " within " ++ timeout.text
  | .missingMinimumSize name => "no minimum size specified for vmss: " ++ name
  | .missingMaximumSize name => "no maximum size specified for vmss: " ++ name
  | .invalidMinimumSize name fault =>
    "invalid minimum size specified for vmss: " ++ name ++ ": " ++ fault.message
  | .invalidMaximumSize name fault =>
    "invalid maximum size specified for vmss: " ++ name ++ ": " ++ fault.message
  | .negativeMinimumSize name min =>
    "minimum size must be a non-negative number of nodes, got " ++ toString min ++
      " for vmss: " ++ name
  | .maximumNotGreaterThanMinimum name min max =>
    "maximum size must be greater than minimum size, got min " ++ toString min ++ " and max " ++
      toString max ++ " for vmss: " ++ name
  | .invalidRateLimitValue variableName value fault =>
    "Failed to parse " ++ variableName ++ "=" ++ Text.quoted value ++ ": " ++ fault.message
  | .unsupportedVmType vmType =>
    "Unsupported vm type " ++ Text.quoted vmType ++ ", only `vmss` is supported"

end NodeFleet
