import NodeFleet.Error
import NodeFleet.Text.Fields
/-!
Explicit node group specs, written `<min>:<max>:<name>`.
-/

set_option autoImplicit false
set_option relaxedAutoImplicit false

namespace NodeFleet

open NodeFleet.Number NodeFleet.Text

structure ExplicitSpec where
  min : Nat
  max : Nat
  name : String
  deriving DecidableEq, Repr

namespace ExplicitSpec

def render (s : ExplicitSpec) : String :=
  toString s.min ++ ":" ++ toString s.max ++ ":" ++ s.name

/-- Reads the three fields, or names the first check that they fail. -/
def ofFields : List (List Char) → Except SpecFault ExplicitSpec
  | [minText, maxText, name] =>
    match readNat maxUnsigned64 minText with
    | .error _ => .error .minSize
    | .ok min =>
      match readNat maxUnsigned64 maxText with
      | .error _ => .error .maxSize
      | .ok max =>
        if max ≤ min then .error .order
        else if name = [] then .error .emptyName
        else .ok ⟨min, max, String.ofList name⟩
  | _ => .error .fieldCount

def parse (text : String) : Except Error ExplicitSpec :=
  (ofFields (fields ':' text.toList)).mapError (.malformedSpec text)

theorem lt_of_ofFields {texts : List (List Char)} {s : ExplicitSpec}
    (h : ofFields texts = .ok s) : s.min < s.max := by
  unfold ofFields at h
  repeat' split at h
  all_goals cases h
  exact Nat.lt_of_not_le ‹_›

theorem lt_of_parse {text : String} {s : ExplicitSpec} (h : parse text = .ok s) :
    s.min < s.max := by
  unfold parse at h
  cases hfields : ofFields (fields ':' text.toList) with
  | error fault =>
    rw [hfields] at h
    cases h
  | ok s' =>
    rw [hfields] at h
    cases h
    exact lt_of_ofFields hfields

/-- Reads specs in order and stops at the first malformed one. -/
def parseAll (texts : List String) : Except Error (List ExplicitSpec) :=
  texts.mapM parse

end ExplicitSpec

end NodeFleet
