import NodeFleet.Error
import NodeFleet.Text.Blank
import NodeFleet.Text.Fields
/-!
Label selectors for auto discovery, written `label:<key>=<value>,...`. A selector matches tags that
have each of its keys with an equal value; one without keys matches nothing.
-/

set_option autoImplicit false
set_option relaxedAutoImplicit false

namespace NodeFleet

open NodeFleet.Text

structure Selector where
  pairs : Table String

namespace Selector

def heading : List Char := "label:".toList

def matchesTags (s : Selector) (tags : Table String) : Bool :=
  !s.pairs.isEmpty && s.pairs.within tags

/-- A key and a value around the first equals sign, trimmed and neither of them blank. -/
def pair? (piece : List Char) : Option (String × String) :=
  match cut? '=' piece with
  | none => none
  | some (key, value) =>
    if trim key = [] ∨ trim value = [] then none
    else some (String.ofList (trim key), String.ofList (trim value))

/-- Adds the pairs of the pieces in order; the first piece that is no pair is the error. -/
def addPieces (pairs : Table String) : List (List Char) → Except (List Char) (Table String)
  | [] => .ok pairs
  | piece :: rest =>
    match pair? piece with
    | none => .error piece
    | some (key, value) => addPieces (pairs.insert key value) rest

def parse (text : String) : Except Error Selector :=
  if heading.isPrefixOf text.toList then
    match addPieces .empty (fields ',' (text.toList.drop heading.length)) with
    | .ok pairs => .ok ⟨pairs⟩
    | .error piece => .error (.invalidSelectorPair text (String.ofList piece))
  else .error (.unsupportedDiscoveryForm text)

def parseAll (texts : List String) : Except Error (List Selector) :=
  texts.mapM parse

/-- A selector whose pairs stand in the table's order. -/
def render (s : Selector) : String :=
  String.ofList heading ++
    String.intercalate "," (s.pairs.entries.map fun e ↦ e.1 ++ "=" ++ e.2)

end Selector

end NodeFleet
