import NodeFleet.Markup.Value
/-!
Typed reading of nodes: texts, lists and records. A text is read as it is written, whatever it looks
like. A record is a mapping whose keys are read as texts; a misfit is told at the innermost place.
-/

set_option autoImplicit false
set_option relaxedAutoImplicit false

namespace NodeFleet.Markup

/-- What a node that is no scalar counts as where another type is expected. -/
def collectionFound : Node → Found
  | .mapping _ => .map
  | _ => .sequence

namespace Place

/-- Refuses a node for its type; a scalar is named by its value. -/
def refuse {α : Type} (p : Place) (n : Node) (expected : String) : Reading α :=
  match n with
  | .scalar text plain tag =>
    match scalarValue text plain tag with
    | .ok v => p.misfit (.invalidType v.found expected)
    | .error (.wideInteger n _) => p.misfit (.wideInteger n expected)
    | .error cause => p.misfit cause
  | n => p.misfit (.invalidType (collectionFound n) expected)

def text (p : Place) (n : Node) (expected : String) : Reading String := do
  match ← p.follow n with
  | .scalar text _ _ => pure text
  | n => p.misfit (.invalidType (collectionFound n) expected)

def list {α : Type} (p : Place) (n : Node) (item : Place → Node → Reading α) :
    Reading (List α) := do
  match ← p.follow n with
  | .sequence items =>
    let inner ← p.inside
    (numbered items).mapM fun e ↦ item (inner.at_ (.index e.1)) e.2
  | n => p.refuse n "a sequence"

/-- The key of a record's entry. -/
def fieldName (p : Place) (n : Node) : Reading String :=
  p.text n "field identifier"

/-- Refuses a field that was read before. -/
def once {α : Type} (p : Place) (name : String) (earlier : Option α) : Reading Unit :=
  if earlier.isSome then p.misfit (.duplicateField name) else pure ()

/-- Reads a mapping entry by entry. The reader of an entry gets the place of the mapping, the name
of the field and the place of its value. -/
def record {σ : Type} (p : Place) (start : σ) (expected : String) (n : Node)
    (entry : Place → σ → String → Place → Node → Reading σ) : Reading σ := do
  match ← p.follow n with
  | .mapping entries =>
    let inner ← p.inside
    entries.foldlM (fun s e ↦ do
      let name ← inner.fieldName e.1
      entry inner s name (inner.at_ (keyStep e.1)) e.2) start
  | n => p.refuse n expected

end Place

/-- Reads a stream of exactly one document with the given reader of its root. -/
def readDocument {α : Type} (s : String) (root : Place → Node → Reading α) : Except Fault α :=
  match DocumentStream.ofText? s with
  | none => .error .malformed
  | some stream =>
    match stream.roots with
    | [] => .error .malformed
    | n :: more =>
      match (root ⟨stream.anchored, [], 128⟩ n).run (stream.parts * 100) with
      | .error fault => .error fault
      | .ok (a, _) => if more.isEmpty then .ok a else .error .malformed

/-! Typed reading of values. -/

namespace Value

def toText (v : Value) : Except Misfit String :=
  match v with
  | text s => .ok s
  | _ => .error (.invalidType v.found "a string")

def toBoolean (v : Value) : Except Misfit Bool :=
  match v with
  | boolean b => .ok b
  | _ => .error (.invalidType v.found "a boolean")

/-- An unsigned integer of at most `bound`. -/
def toNat (bound : Nat) (expected : String) (v : Value) : Except Misfit Nat :=
  match v with
  | unsigned n => if n ≤ bound then .ok n else .error (.invalidValue v.found expected)
  | signed n =>
    if 0 ≤ n ∧ n ≤ bound then .ok n.toNat else .error (.invalidValue v.found expected)
  | _ => .error (.invalidType v.found expected)

/-- A number of any kind, rounded to a single. -/
def toSingle (v : Value) : Except Misfit NodeFleet.Number.Single :=
  match v with
  | unsigned n => .ok (.ofNat n)
  | signed n => .ok (.ofRat n)
  | real x => .ok x.convert
  | _ => .error (.invalidType v.found "f32")

/-- A key that names a field by text or by its position in the record. -/
def fieldOf (positions : List String) (v : Value) : Except Misfit (Option String) :=
  match v with
  | text s => .ok (some s)
  | unsigned n => .ok positions[n]?
  | _ => .error (.invalidType v.found "field identifier")

end Value

end NodeFleet.Markup
