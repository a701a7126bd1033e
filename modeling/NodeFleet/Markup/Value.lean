import NodeFleet.Markup.Fault
import NodeFleet.Markup.Node
import NodeFleet.Number.Decimal
/-!
The values of nodes. A plain scalar without a tag is what it looks like: nothing, a truth value, a
number or, failing these, a text. Aliases are followed, within a depth and a count that keep the
reading of hostile documents short.
-/

set_option autoImplicit false
set_option relaxedAutoImplicit false

namespace NodeFleet.Markup

open NodeFleet.Number

inductive Value
  | nothing
  | boolean (b : Bool)
  | unsigned (n : Nat)
  | signed (n : Int)
  | real (x : Double)
  | text (s : String)
  | sequence (items : List Value)
  | map (entries : List (Value × Value))
  deriving Repr

def Value.found : Value → Found
  | nothing => .nothing
  | boolean b => .boolean b
  | unsigned n => .integer n
  | signed n => .integer n
  | real x => .real x
  | text s => .text s
  | sequence _ => .sequence
  | map _ => .map

/-! Plain scalars. -/

def digitOf? (radix : Nat) (c : Char) : Option Nat :=
  let n :=
    if c.isDigit then c.toNat - '0'.toNat
    else if 'a' ≤ c && c ≤ 'z' then c.toNat - 'a'.toNat + 10
    else if 'A' ≤ c && c ≤ 'Z' then c.toNat - 'A'.toNat + 10
    else radix
  if n < radix then some n else none

/-- Digits only, at least one. -/
def digits? (radix : Nat) (s : List Char) : Option Nat :=
  if s.isEmpty then none
  else s.foldl (fun n c ↦ do pure ((← n) * radix + (← digitOf? radix c))) (some 0)

/-- Digits behind a leading zero are a text. -/
def isPaddedNumber (s : List Char) : Bool :=
  let unsigned := match s with
    | '-' :: rest => rest
    | '+' :: rest => rest
    | _ => s
  match unsigned with
  | '0' :: d :: rest => (d :: rest).all Char.isDigit
  | _ => false

/-- The digits after the mark of a radix other than ten, and the radix. -/
def radixDigits? : List Char → Option (Nat × List Char)
  | '0' :: 'x' :: rest => some (16, rest)
  | '0' :: 'o' :: rest => some (8, rest)
  | '0' :: 'b' :: rest => some (2, rest)
  | _ => none

def magnitude? (s : List Char) : Option Nat :=
  (radixDigits? s).bind (fun r ↦ digits? r.1 r.2) <|> digits? 10 s

/-- An integer without sign or after a plus sign. -/
def positive? (s : List Char) : Option Nat :=
  if isPaddedNumber s then none
  else
    match s with
    | '+' :: rest => magnitude? rest
    | _ => magnitude? s

def negative? (s : List Char) : Option Int :=
  if isPaddedNumber s then none
  else
    match s with
    | '-' :: rest => (magnitude? rest).map fun n ↦ -(n : Int)
    | _ => none

/-- A number with a sign, a point or an exponent; not a number and the infinities have names of
their own, and no text is so large a number that it is infinite. -/
def real? (s : List Char) : Option Double :=
  let unsigned := match s with
    | '+' :: rest => rest
    | _ => s
  let doublySigned : Bool :=
    match s with
    | '+' :: '+' :: _ => true
    | '+' :: '-' :: _ => true
    | _ => false
  let text := String.ofList s
  let bare := String.ofList unsigned
  if doublySigned then none
  else if bare ∈ [".inf", ".Inf", ".INF"] then some .infinity
  else if text ∈ ["-.inf", "-.Inf", "-.INF"] then some ⟨true, Format.double.infinity⟩
  else if text ∈ [".nan", ".NaN", ".NAN"] then some .nan
  else
    match Binary.read .double unsigned with
    | .ok x => if x.isFinite then some x else none
    | .error _ => none

/-- What a plain scalar looks like; an integer beyond a word fits no value. -/
def plainValue (text : String) : Except Misfit Value :=
  let s := text.toList
  let wide (n : Int) : Except Misfit Value := .error (.wideInteger n "any value")
  let asReal : Value :=
    if isPaddedNumber s then .text text
    else
      match real? s with
      | some x => .real x
      | none => .text text
  if text = "~" ∨ text = "null" then .ok .nothing
  else if text = "true" then .ok (.boolean true)
  else if text = "false" then .ok (.boolean false)
  else
    match positive? s, negative? s with
    | some n, _ =>
      if n ≤ maxUnsigned64 then .ok (.unsigned n)
      else if n < Nat.pow 2 128 then wide n
      else .ok asReal
    | none, some n =>
      if -Nat.pow 2 63 ≤ n then .ok (.signed n)
      else if -Nat.pow 2 127 ≤ n then wide n
      else .ok asReal
    | none, none => .ok asReal

/-- A scalar with a tag of the core family is read as that type says, and any other text
as it is. -/
def scalarValue (text : String) (plain : Bool) (tag : Option Tag) : Except Misfit Value :=
  match tag with
  | none => if plain then plainValue text else .ok (.text text)
  | some t =>
    let refuse (expected : String) : Except Misfit Value :=
      .error (.invalidValue (.text text) expected)
    if t.handle = "!!" then
      match t.suffix with
      | "bool" =>
        if text = "true" then .ok (.boolean true)
        else if text = "false" then .ok (.boolean false)
        else refuse "a boolean"
      | "int" =>
        match readInt maxSigned64 text.toList with
        | .ok n => .ok (.signed n)
        | .error _ => refuse "an integer"
      | "float" =>
        match real? text.toList with
        | some x => .ok (.real x)
        | none => refuse "a float"
      | "null" => if text = "~" ∨ text = "null" then .ok .nothing else refuse "null"
      | _ => .ok (.text text)
    else .ok (.text text)

/-! Reading nodes. -/

/-- Where a node is read: what aliases stand for, the path to the node and the depth left. -/
structure Place where
  anchored : List (Nat × Node)
  path : Path
  depth : Nat

/-- Readings count the aliases still allowed to be followed. -/
abbrev Reading := StateT Nat (Except Fault)

namespace Place

def misfit {α : Type} (p : Place) (cause : Misfit) : Reading α :=
  throw (.misfit p.path cause)

def lift {α : Type} (p : Place) (result : Except Misfit α) : Reading α :=
  match result with
  | .ok a => pure a
  | .error cause => p.misfit cause

def at_ (p : Place) (step : PathStep) : Place :=
  { p with path := step :: p.path }

/-- The place of the items of a collection, one level deeper. -/
def inside (p : Place) : Reading Place :=
  match p.depth with
  | 0 => throw .malformed
  | d + 1 => pure { p with depth := d }

/-- Follows an alias. -/
def follow (p : Place) (n : Node) : Reading Node := do
  match n with
  | .alias number =>
    match ← get with
    | 0 => throw .malformed
    | left + 1 =>
      set left
      match p.anchored.find? fun e ↦ e.1 = number with
      | some e => pure e.2
      | none => throw .malformed
  | n => pure n

/-- A scalar names the place of the value beside it. -/
def keyStep : Node → PathStep
  | .scalar text _ _ => .key text
  | _ => .unnamed

end Place

def numbered {α : Type} (l : List α) : List (Nat × α) :=
  (List.range l.length).zip l

def readAs (anchored : List (Nat × Node)) : Nat → Path → Node → Reading Value
  | depth, path, n => do
    let p : Place := ⟨anchored, path, depth⟩
    match ← p.follow n with
    | .scalar text plain tag => p.lift (scalarValue text plain tag)
    | .sequence items =>
      match depth with
      | 0 => throw .malformed
      | d + 1 =>
        let values ← (numbered items).mapM fun e ↦ readAs anchored d (.index e.1 :: path) e.2
        pure (.sequence values)
    | .mapping entries =>
      match depth with
      | 0 => throw .malformed
      | d + 1 =>
        let values ← entries.mapM fun e ↦ do
          let k ← readAs anchored d path e.1
          let v ← readAs anchored d (Place.keyStep e.1 :: path) e.2
          pure (k, v)
        pure (.map values)
    | .alias _ => throw .malformed

/-- The value of a node of any type. -/
def Place.value (p : Place) (n : Node) : Reading Value :=
  readAs p.anchored p.depth p.path n

end NodeFleet.Markup
