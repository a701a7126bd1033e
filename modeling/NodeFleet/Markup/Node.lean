import NodeFleet.Markup.Token
/-!
The nodes of a document: scalars, sequences, mappings, and aliases of nodes that carry an anchor.
A stream holds the nodes of its documents and, by number, every anchored node.
-/

set_option autoImplicit false
set_option relaxedAutoImplicit false

namespace NodeFleet.Markup

inductive Node
  | scalar (text : String) (plain : Bool) (tag : Option Tag)
  | sequence (items : List Node)
  | mapping (entries : List (Node × Node))
  | alias (number : Nat)
  deriving Repr

namespace Node

/-- What stands for a node left out. -/
def missing : Node := scalar "~" true none

end Node

/-- The tokens still to be read, the names given to anchors in this document, and the anchored
nodes of the stream. `parts` counts the scalars, the aliases and the two ends of each collection. -/
structure Composer where
  tokens : List Token
  names : List (String × Nat)
  anchored : List (Nat × Node)
  nextNumber : Nat
  parts : Nat

namespace Composer

def after (r : Composer) (tokens : List Token) : Composer :=
  { r with tokens := tokens }

def count (r : Composer) (n : Nat) : Composer :=
  { r with parts := r.parts + n }

def name (r : Composer) (anchor : String) : Composer :=
  { r with names := (anchor, r.nextNumber) :: r.names, nextNumber := r.nextNumber + 1 }

/-- Anchor and tag before a node, in either order. -/
def properties (r : Composer) : Option Nat × Option Tag × Composer :=
  match r.tokens with
  | .anchor a :: .tag t :: rest => (some r.nextNumber, some t, (r.name a).after rest)
  | .anchor a :: rest => (some r.nextNumber, none, (r.name a).after rest)
  | .tag t :: .anchor a :: rest => (some r.nextNumber, some t, (r.name a).after rest)
  | .tag t :: rest => (none, some t, r.after rest)
  | _ => (none, none, r)

def number? (r : Composer) (anchor : String) : Option Nat :=
  (r.names.find? fun e ↦ e.1 = anchor).map Prod.snd

def finish (anchor : Option Nat) (node : Node) (r : Composer) : Node × Composer :=
  match anchor with
  | none => (node, r)
  | some n => (node, { r with anchored := (n, node) :: r.anchored })

/-- A node left out of a block collection. -/
def missing (r : Composer) : Node × Composer :=
  (.missing, r.count 1)

/-- Whether the next token ends an item of a block mapping. -/
def endsBlockItem : List Token → Bool
  | .key :: _ => true
  | .value :: _ => true
  | .blockEnd :: _ => true
  | _ => false

def endsFlowPair : List Token → Bool
  | .flowEntry :: _ => true
  | .flowSequenceEnd :: _ => true
  | _ => false

def endsFlowItem : List Token → Bool
  | .flowEntry :: _ => true
  | .flowMappingEnd :: _ => true
  | _ => false

mutual

/-- A node; block collections only where `block` holds, and the entries of a sequence without an
indentation of its own only where `entries` holds. -/
def node (block entries : Bool) : Nat → Composer → Option (Node × Composer)
  | 0, _ => none
  | fuel + 1, r =>
    match r.tokens with
    | .alias a :: rest => (r.number? a).map fun n ↦ (.alias n, (r.after rest).count 1)
    | _ =>
      let (anchor, tag, r) := r.properties
      match r.tokens with
      | .blockEntry :: _ =>
        if entries then
          (looseSequence fuel [] (r.count 2)).map fun p ↦ finish anchor (.sequence p.1) p.2
        else bare anchor tag r
      | .scalar text plain :: rest =>
        some (finish anchor (.scalar text plain tag) ((r.after rest).count 1))
      | .flowSequenceStart :: rest =>
        (flowSequence fuel true [] ((r.after rest).count 2)).map fun p ↦
          finish anchor (.sequence p.1) p.2
      | .flowMappingStart :: rest =>
        (flowMapping fuel true [] ((r.after rest).count 2)).map fun p ↦
          finish anchor (.mapping p.1) p.2
      | .blockSequenceStart :: rest =>
        if block then
          (blockSequence fuel [] ((r.after rest).count 2)).map fun p ↦
            finish anchor (.sequence p.1) p.2
        else bare anchor tag r
      | .blockMappingStart :: rest =>
        if block then
          (blockMapping fuel [] ((r.after rest).count 2)).map fun p ↦
            finish anchor (.mapping p.1) p.2
        else bare anchor tag r
      | _ => bare anchor tag r

/-- Properties without content are an empty text. -/
def bare (anchor : Option Nat) (tag : Option Tag) (r : Composer) : Option (Node × Composer) :=
  if anchor.isSome || tag.isSome then some (finish anchor (.scalar "" true tag) (r.count 1))
  else none

def blockSequence : Nat → List Node → Composer → Option (List Node × Composer)
  | 0, _, _ => none
  | fuel + 1, items, r =>
    match r.tokens with
    | .blockEnd :: rest => some (items.reverse, r.after rest)
    | .blockEntry :: rest =>
      let r := r.after rest
      let item := match rest with
        | .blockEntry :: _ => some r.missing
        | .blockEnd :: _ => some r.missing
        | _ => node true false fuel r
      match item with
      | some (n, r) => blockSequence fuel (n :: items) r
      | none => none
    | _ => none

def looseSequence : Nat → List Node → Composer → Option (List Node × Composer)
  | 0, _, _ => none
  | fuel + 1, items, r =>
    match r.tokens with
    | .blockEntry :: rest =>
      let r := r.after rest
      let item := match rest with
        | .blockEntry :: _ => some r.missing
        | _ => if endsBlockItem rest then some r.missing else node true false fuel r
      match item with
      | some (n, r) => looseSequence fuel (n :: items) r
      | none => none
    | _ => some (items.reverse, r)

def blockMapping : Nat → List (Node × Node) → Composer → Option (List (Node × Node) × Composer)
  | 0, _, _ => none
  | fuel + 1, entries, r =>
    let key : Option (Option (Node × Composer)) :=
      match r.tokens with
      | .key :: rest =>
        let r := r.after rest
        some (if endsBlockItem rest then some r.missing else node true true fuel r)
      | .value :: _ => some (some r.missing)
      | _ => none
    match key with
    | none =>
      match r.tokens with
      | .blockEnd :: rest => some (entries.reverse, r.after rest)
      | _ => none
    | some none => none
    | some (some (k, r)) =>
      let value := match r.tokens with
        | .value :: rest =>
          let r := r.after rest
          if endsBlockItem rest then some r.missing else node true true fuel r
        | _ => some r.missing
      match value with
      | some (v, r) => blockMapping fuel ((k, v) :: entries) r
      | none => none

/-- Items between commas. An item with a key is a mapping of one entry; an empty key takes the
token after its mark with it. -/
def flowSequence (fuel : Nat) (first : Bool) (items : List Node) (r : Composer) :
    Option (List Node × Composer) :=
  match fuel with
  | 0 => none
  | fuel + 1 =>
    match flowStep first .flowSequenceEnd r with
    | none => none
    | some (true, r) => some (items.reverse, r)
    | some (false, r) =>
      match r.tokens with
      | .flowSequenceEnd :: rest => some (items.reverse, r.after rest)
      | .key :: rest =>
        let r := (r.after rest).count 2
        let key := match rest with
          | .value :: more => some (r.after more).missing
          | .flowEntry :: more => some (r.after more).missing
          | .flowSequenceEnd :: more => some (r.after more).missing
          | _ => node false false fuel r
        match key with
        | none => none
        | some (k, r) =>
          let value := match r.tokens with
            | .value :: rest =>
              let r := r.after rest
              if endsFlowPair rest then some r.missing else node false false fuel r
            | _ => some r.missing
          match value with
          | some (v, r) => flowSequence fuel false (.mapping [(k, v)] :: items) r
          | none => none
      | _ =>
        match node false false fuel r with
        | some (n, r) => flowSequence fuel false (n :: items) r
        | none => none

def flowMapping (fuel : Nat) (first : Bool) (entries : List (Node × Node)) (r : Composer) :
    Option (List (Node × Node) × Composer) :=
  match fuel with
  | 0 => none
  | fuel + 1 =>
    match flowStep first .flowMappingEnd r with
    | none => none
    | some (true, r) => some (entries.reverse, r)
    | some (false, r) =>
      match r.tokens with
      | .flowMappingEnd :: rest => some (entries.reverse, r.after rest)
      | _ =>
        let key : Option (Bool × Node × Composer) :=
          match r.tokens with
          | .key :: .value :: rest => some (true, (r.after (.value :: rest)).missing)
          | .key :: rest =>
            let r := r.after rest
            if endsFlowItem rest then some (true, r.missing)
            else (node false false fuel r).map (true, ·)
          | .value :: _ => some (true, r.missing)
          | _ => (node false false fuel r).map (false, ·)
        match key with
        | none => none
        | some (false, k, r) =>
          let (v, r) := r.missing
          flowMapping fuel false ((k, v) :: entries) r
        | some (true, k, r) =>
          let value := match r.tokens with
            | .value :: rest =>
              let r := r.after rest
              if endsFlowItem rest then some r.missing else node false false fuel r
            | _ => some r.missing
          match value with
          | some (v, r) => flowMapping fuel false ((k, v) :: entries) r
          | none => none

/-- Before an item of a flow collection: passes the end of the collection, or the comma that every
item but the first needs. -/
def flowStep (first : Bool) (closing : Token) (r : Composer) : Option (Bool × Composer) :=
  match r.tokens with
  | [] => if first then some (false, r) else none
  | t :: rest =>
    if t = closing then some (true, r.after rest)
    else if first then some (false, r)
    else if t = .flowEntry then some (false, r.after rest)
    else none

end

end Composer

/-- A stream of documents: their root nodes, the anchored nodes and the count of parts. -/
structure DocumentStream where
  roots : List Node
  anchored : List (Nat × Node)
  parts : Nat

namespace DocumentStream

def isDocumentMark : Token → Bool
  | .directive => true
  | .documentStart => true
  | .documentEnd => true
  | _ => false

/-- The root of a document after its opening mark. -/
def content (fuel : Nat) (r : Composer) : Option (Node × Composer) :=
  if r.tokens.head?.all isDocumentMark then some r.missing else r.node true false fuel

/-- Documents up to the end; only the first may go without an opening mark. -/
def documents (fuel : Nat) : Nat → Bool → List Node → Composer → Option (List Node × Composer)
  | 0, _, _, _ => none
  | rounds + 1, first, roots, r =>
    let r := if first then r else r.after (r.tokens.dropWhile (· = .documentEnd))
    let root : Option (Option (Node × Composer)) :=
      match r.tokens with
      | [] => none
      | t :: _ =>
        let r := { r with names := [] }
        if first && t ≠ .directive && t ≠ .documentStart then some (r.node true false fuel)
        else
          match r.tokens.dropWhile (· = .directive) with
          | .documentStart :: rest => some (content fuel (r.after rest))
          | _ => some none
    match root with
    | none => some (roots.reverse, r)
    | some none => none
    | some (some (n, r)) =>
      let r := match r.tokens with
        | .documentEnd :: rest => r.after rest
        | _ => r
      documents fuel rounds false (n :: roots) r

def ofTokens? (tokens : List Token) : Option DocumentStream :=
  let fuel := 4 * tokens.length + 8
  (documents fuel (tokens.length + 2) true [] ⟨tokens, [], [], 1, 0⟩).map fun p ↦
    ⟨p.1, p.2.anchored, p.2.parts⟩

def ofText? (text : String) : Option DocumentStream :=
  (Token.ofText? text).bind ofTokens?

end DocumentStream

end NodeFleet.Markup
