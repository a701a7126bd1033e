import NodeFleet.Markup.Decode
/-!
Where scale sets come from: an account held in memory, or a directory of inventory files. In a
configuration the kind stands under `type`, among or before the other fields.
-/

set_option autoImplicit false
set_option relaxedAutoImplicit false

namespace NodeFleet.Config

open NodeFleet.Markup

inductive Provider
  | mock
  | file (path : String)
  deriving DecidableEq, Repr

inductive ProviderKind
  | mock
  | file
  deriving DecidableEq, Repr

def kindField : String := "type"

def readKind (p : Place) (n : Node) : Reading ProviderKind := do
  match ← p.text n "variant identifier" with
  | "mock" => pure .mock
  | "file" => pure .file
  | name => p.misfit (.unknownVariant name ["mock", "file"])

/-- The kind and the other entries of a provider. -/
def splitKind (p : Place) (kind : Option ProviderKind) (others : List (Value × Value)) :
    List (Node × Node) → Reading (Option ProviderKind × List (Value × Value))
  | [] => pure (kind, others.reverse)
  | (k, v) :: rest => do
    let here := p.at_ (Place.keyStep k)
    match ← p.value k with
    | .text name =>
      if name = kindField then
        p.once kindField kind
        let found ← readKind here v
        splitKind p (some found) others rest
      else splitKind p kind ((.text name, ← here.value v) :: others) rest
    | key => splitKind p kind ((key, ← here.value v) :: others) rest

def pathOfEntries (path : Option String) : List (Value × Value) → Except Misfit Provider
  | [] =>
    match path with
    | some s => .ok (.file s)
    | none => .error (.missingField "path")
  | (key, v) :: rest =>
    match key.fieldOf ["path"] with
    | .error cause => .error cause
    | .ok name =>
      if name = some "path" then
        if path.isSome then .error (.duplicateField "path")
        else
          match v.toText with
          | .ok s => pathOfEntries (some s) rest
          | .error cause => .error cause
      else pathOfEntries path rest

def providerOfEntries (kind : ProviderKind) (entries : List (Value × Value)) :
    Except Misfit Provider :=
  match kind with
  | .mock => .ok .mock
  | .file => pathOfEntries none entries

def providerOfItems (kind : ProviderKind) (items : List Value) : Except Misfit Provider :=
  match kind, items with
  | .mock, [] => .ok .mock
  | .mock, _ => .error (.wrongLength items.length "0 elements in sequence")
  | .file, [] => .error (.wrongLength 0 "struct variant ScaleSetProvider::File with 1 element")
  | .file, path :: rest =>
    match path.toText with
    | .error cause => .error cause
    | .ok s =>
      if rest.isEmpty then .ok (.file s)
      else .error (.wrongLength items.length "1 element in sequence")

/-- Reads a provider. What is wrong behind its kind is told of the place around it, `outer`. -/
def readProvider (outer p : Place) (n : Node) : Reading Provider := do
  match ← p.follow n with
  | .mapping entries =>
    let inner ← p.inside
    match ← splitKind inner none [] entries with
    | (some kind, others) => outer.lift (providerOfEntries kind others)
    | (none, _) => p.misfit (.missingField kindField)
  | .sequence [] =>
    let _ ← p.inside
    p.misfit (.missingField kindField)
  | .sequence (first :: rest) =>
    let inner ← p.inside
    let kind ← readKind (inner.at_ (.index 0)) first
    let items ← (numbered rest).mapM fun e ↦ (inner.at_ (.index (e.1 + 1))).value e.2
    outer.lift (providerOfItems kind items)
  | n => p.refuse n "internally tagged enum ScaleSetProvider"

end NodeFleet.Config
