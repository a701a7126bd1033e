import NodeFleet.Number.Shortest
import NodeFleet.Text.Quoted
/-!
Why a document could not be read: it is no well-formed single document, or it is one that does not
fit the type it is read as, with the place of the misfit.
-/

set_option autoImplicit false
set_option relaxedAutoImplicit false

namespace NodeFleet.Markup

open NodeFleet.Number

inductive PathStep
  | index (i : Nat)
  | key (name : String)
  | unnamed
  deriving DecidableEq, Repr

/-- The way from the root to a node, the last step first. -/
abbrev Path := List PathStep

namespace Path

def text : Path → String
  | [] => "."
  | .index i :: parent => text parent ++ "[" ++ toString i ++ "]"
  | .key name :: [] => name
  | .key name :: parent => text parent ++ "." ++ name
  | .unnamed :: [] => "?"
  | .unnamed :: parent => text parent ++ ".?"

end Path

/-- What stands where something else was expected. -/
inductive Found
  | nothing
  | boolean (b : Bool)
  | integer (n : Int)
  | real (x : Double)
  | text (s : String)
  | sequence
  | map
  deriving Repr

def Found.message : Found → String
  | .nothing => "unit value"
  | .boolean b => "boolean `" ++ (if b then "true" else "false") ++ "`"
  | .integer n => "integer `" ++ toString n ++ "`"
  | .real x => "floating point `" ++ x.text ++ "`"
  | .text s => "string " ++ Text.quoted s
  | .sequence => "sequence"
  | .map => "map"

inductive Misfit
  | missingField (name : String)
  | duplicateField (name : String)
  | invalidType (found : Found) (expected : String)
  | invalidValue (found : Found) (expected : String)
  | unknownVariant (name : String) (known : List String)
  /-- An integer too wide for a word. -/
  | wideInteger (n : Int) (expected : String)
  | wrongLength (length : Nat) (expected : String)
  deriving Repr

def Misfit.message : Misfit → String
  | .missingField name => "missing field `" ++ name ++ "`"
  | .duplicateField name => "duplicate field `" ++ name ++ "`"
  | .invalidType found expected => "invalid type: " ++ found.message ++ ", expected " ++ expected
  | .invalidValue found expected => "invalid value: " ++ found.message ++ ", expected " ++ expected
  | .unknownVariant name known =>
    "unknown variant `" ++ name ++ "`, expected " ++
      String.intercalate " or " (known.map fun k ↦ "`" ++ k ++ "`")
  | .wideInteger n expected =>
    "invalid type: integer `" ++ toString n ++ "` as " ++ (if 0 ≤ n then "u128" else "i128") ++
      ", expected " ++ expected
  | .wrongLength length expected =>
    "invalid length " ++ toString length ++ ", expected " ++ expected

inductive Fault
  | malformed
  | misfit (path : Path) (cause : Misfit)
  deriving Repr

/-- The place and the cause of a misfit; the root is not named. -/
def Fault.message : Fault → String
  | .malformed => "malformed document"
  | .misfit [] cause => cause.message
  | .misfit path cause => path.text ++ ": " ++ cause.message

end NodeFleet.Markup
