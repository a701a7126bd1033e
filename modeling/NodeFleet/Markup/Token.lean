import NodeFleet.Markup.Token.Scalar
/-!
The tokens of a document stream. Indentation becomes opening and closing tokens of blocks, and a
colon makes a key of what stands before it on the line, so a key's tokens are inserted afterwards.
-/

set_option autoImplicit false
set_option relaxedAutoImplicit false

namespace NodeFleet.Markup

/-- A tag: the handle that names its family and the rest. -/
structure Tag where
  handle : String
  suffix : String
  deriving DecidableEq, Repr

inductive Token
  | directive
  | documentStart
  | documentEnd
  | blockSequenceStart
  | blockMappingStart
  | blockEnd
  | flowSequenceStart
  | flowSequenceEnd
  | flowMappingStart
  | flowMappingEnd
  | blockEntry
  | flowEntry
  | key
  | value
  | alias (name : String)
  | anchor (name : String)
  | tag (tag : Tag)
  | scalar (text : String) (plain : Bool)
  deriving DecidableEq, Repr

/-- A place at which a key may have begun: the number of its first token, and whether it has to turn
out to be a key. -/
structure KeyMark where
  possible : Bool
  required : Bool
  tokenNumber : Nat
  place : Cursor

def KeyMark.none : KeyMark := ⟨false, false, 0, .start []⟩

structure Scanner where
  cursor : Cursor
  tokens : Array Token
  /-- Where a colon may follow a quoted scalar without a blank. -/
  adjacentValueAt : Nat
  keyAllowed : Bool
  /-- The open key of the current flow level and those of the levels around it. -/
  key : KeyMark
  outerKeys : List KeyMark
  /-- The column of the innermost block and those around it; `-1` stands for none. -/
  indent : Int
  outerIndents : List Int

namespace Scanner

def start (s : List Char) : Scanner :=
  ⟨.start s, #[], 0, true, .none, [], -1, []⟩

def inFlow (s : Scanner) : Bool :=
  !s.outerKeys.isEmpty

def push (s : Scanner) (t : Token) : Scanner :=
  { s with tokens := s.tokens.push t }

def insertAt (s : Scanner) (n : Nat) (t : Token) : Scanner :=
  { s with tokens := s.tokens.insertIdxIfInBounds n t }

/-- Closes the blocks to the right of a column. -/
def unroll (s : Scanner) (col : Int) : Scanner :=
  if s.inFlow then s else go s col s.outerIndents
where
  go (s : Scanner) (col : Int) : List Int → Scanner
    | [] => s
    | outer :: rest =>
      if col < s.indent then
        go { s.push .blockEnd with indent := outer, outerIndents := rest } col rest
      else s

/-- Opens a block at a column to the right of the current one, at the token of the given number or
after all tokens. -/
def roll (s : Scanner) (col : Nat) (number : Option Nat) (t : Token) : Scanner :=
  if !s.inFlow && s.indent < col then
    let s := { s with indent := col, outerIndents := s.indent :: s.outerIndents }
    match number with
    | some n => s.insertAt n t
    | none => s.push t
  else s

def staleMark (s : Scanner) (m : KeyMark) : Bool :=
  m.possible && (m.place.line < s.cursor.line || m.place.index + 1024 < s.cursor.index)

/-- Forgets the keys that can no longer be: those of earlier lines and those too far back. -/
def dropStale (s : Scanner) : Option Scanner :=
  if (s.key :: s.outerKeys).any fun m ↦ s.staleMark m && m.required then none
  else
    let fresh (m : KeyMark) : KeyMark := if s.staleMark m then { m with possible := false } else m
    some { s with key := fresh s.key, outerKeys := s.outerKeys.map fresh }

def removeKey (s : Scanner) : Option Scanner :=
  if s.key.possible && s.key.required then none
  else some { s with key := { s.key with possible := false } }

/-- Marks the place as the possible beginning of a key. -/
def saveKey (s : Scanner) : Option Scanner :=
  if s.keyAllowed then
    (removeKey s).map fun s ↦
      { s with key := ⟨true, s.inFlow && s.indent = s.cursor.col, s.tokens.size, s.cursor⟩ }
  else some s

def allowKey (s : Scanner) (allowed : Bool) : Scanner :=
  { s with keyAllowed := allowed }

def moveTo (s : Scanner) (c : Cursor) : Scanner :=
  { s with cursor := c }

/-- Passes blanks, comments and line breaks. A line break outside flow collections lets a key
begin, and a tab counts as a blank only where no key may begin. -/
def skipGap (s : Scanner) : Nat → Scanner
  | 0 => s
  | fuel + 1 =>
    match s.cursor.rest with
    | [] => s
    | c :: _ =>
      if c = ' ' || (c = '\t' && (s.inFlow || !s.keyAllowed)) then
        (s.moveTo s.cursor.advance).skipGap fuel
      else if isBreak c then
        let s := s.moveTo s.cursor.skipBreak
        (if s.inFlow then s else s.allowKey true).skipGap fuel
      else if c = '#' then (s.moveTo s.cursor.skipComment).skipGap fuel
      else s

/-! Directives. -/

def versionNumber? (c : Cursor) : Option Cursor :=
  let (digits, c) := c.span Char.isDigit
  if digits.length = 0 || 9 < digits.length then none else some c

def octet? : List Char → Option Nat
  | '%' :: a :: b :: _ => if isHex a && isHex b then some (hexValue a * 16 + hexValue b) else none
  | _ => none

def octetCount (octet : Nat) : Option Nat :=
  if octet < 0x80 then some 1
  else if octet < 0xC0 then none
  else if octet < 0xE0 then some 2
  else if octet < 0xF0 then some 3
  else if octet < 0xF8 then some 4
  else none

/-- The octets after the first of an escaped character, strung to its code. -/
def uriTail (code : Nat) (c : Cursor) : Nat → Option (Nat × Cursor)
  | 0 => some (code, c)
  | n + 1 => do
    let octet ← octet? c.rest
    if octet / 64 = 2 then uriTail (code * 256 + octet) (c.advanceBy 3) n else none

def uriEscape? (c : Cursor) : Option (Char × Cursor) := do
  let first ← octet? c.rest
  let count ← octetCount first
  let (code, c) ← uriTail first (c.advanceBy 3) (count - 1)
  if code.isValidChar then some (Char.ofNat code, c) else none

def isUriChar (c : Char) : Bool :=
  isWord c || ";/?:@&=+$,.!~*'()[]%".toList.contains c

/-- The characters of a tag or of a tag's family. -/
def uri? : Nat → List Char → Cursor → Option (List Char × Cursor)
  | 0, _, _ => none
  | fuel + 1, sofar, c =>
    match c.rest with
    | [] => some (sofar, c)
    | d :: _ =>
      if d = '%' then
        match uriEscape? c with
        | some (e, c) => uri? fuel (sofar ++ [e]) c
        | none => none
      else if isUriChar d then uri? fuel (sofar ++ [d]) c.advance
      else some (sofar, c)

def readUri (head : List Char) (c : Cursor) : Option (List Char × Cursor) := do
  let (text, after) ← uri? (c.rest.length + 1) (head.drop 1) c
  if head.isEmpty && after.index = c.index then none else some (text, after)

/-- A handle between exclamation marks; the second one may be missing in a tag. -/
def readHandle (inDirective : Bool) (c : Cursor) : Option (List Char × Cursor) :=
  if c.peekIs (· = '!') then
    let (word, c) := c.advance.span isWord
    if c.peekIs (· = '!') then some ('!' :: word ++ ['!'], c.advance)
    else if inDirective && !word.isEmpty then none
    else some ('!' :: word, c)
  else none

def readTag (c : Cursor) : Option (Tag × Cursor) :=
  let verbatim : Bool := c.advance.peekIs (· = '<')
  let parts : Option (Tag × Cursor) :=
    if verbatim then do
      let (suffix, c) ← readUri [] (c.advanceBy 2)
      if c.peekIs (· = '>') then some (⟨"", String.ofList suffix⟩, c.advance) else none
    else do
      let (handle, c) ← readHandle false c
      if 2 ≤ handle.length && handle.getLast? = some '!' then
        let (suffix, c) ← readUri [] c
        some (⟨String.ofList handle, String.ofList suffix⟩, c)
      else
        let (suffix, c) ← readUri handle c
        if suffix.isEmpty then some (⟨"", "!"⟩, c) else some (⟨"!", String.ofList suffix⟩, c)
  parts.filter fun p ↦ p.2.endsOr isBlankOrBreak

def readDirective (c : Cursor) : Option Cursor := do
  let (name, c) := c.advance.span isWord
  if name.isEmpty || !c.endsOr isBlankOrBreak then none
  else
    let c ←
      match String.ofList name with
      | "YAML" => do
        let c ← versionNumber? (c.skipWhile isBlankChar)
        if c.peekIs (· = '.') then versionNumber? c.advance else none
      | "TAG" => do
        let (_, c) ← readHandle true (c.skipWhile isBlankChar)
        let (_, c) ← readUri [] (c.skipWhile isBlankChar)
        if c.endsOr isBlankOrBreak then some c else none
      | _ => some (c.skipWhile fun d ↦ !isBreak d)
    let c := (c.skipWhile isBlankChar).skipComment
    if c.endsOr isBreak then some (if c.atEnd then c else c.skipBreak) else none

def readAnchor (c : Cursor) : Option (String × Cursor) :=
  let (name, c) := c.advance.span isWord
  if name.isEmpty || !c.endsOr fun d ↦ isBlankOrBreak d || "?:,]\x7d%@\x60".toList.contains d then
    none
  else some (String.ofList name, c)

/-! One step for each kind of token. -/

def fetchDirective (s : Scanner) : Option Scanner := do
  let s ← (s.unroll (-1)).removeKey
  let c ← readDirective s.cursor
  pure (((s.allowKey false).moveTo c).push .directive)

def fetchDocumentMark (s : Scanner) : Option Scanner := do
  let s ← (s.unroll (-1)).removeKey
  let mark := if s.cursor.peekIs (· = '-') then Token.documentStart else .documentEnd
  pure (((s.allowKey false).moveTo (s.cursor.advanceBy 3)).push mark)

/-- Flow collections nest to a depth of 255. -/
def fetchFlowStart (s : Scanner) (t : Token) : Option Scanner := do
  let s ← s.saveKey
  if 255 ≤ s.outerKeys.length then none
  else
    let s := { s with key := .none, outerKeys := s.key :: s.outerKeys }
    pure (((s.allowKey true).moveTo s.cursor.advance).push t)

def fetchFlowEnd (s : Scanner) (t : Token) : Option Scanner := do
  let s ← s.removeKey
  let s := match s.outerKeys with
    | [] => s
    | outer :: rest => { s with key := outer, outerKeys := rest }
  pure (((s.allowKey false).moveTo s.cursor.advance).push t)

def fetchFlowEntry (s : Scanner) : Option Scanner := do
  let s ← s.removeKey
  pure (((s.allowKey true).moveTo s.cursor.advance).push .flowEntry)

def fetchBlockEntry (s : Scanner) : Option Scanner := do
  if s.inFlow || !s.keyAllowed then none
  else
    let s ← (s.roll s.cursor.col none .blockSequenceStart).removeKey
    pure (((s.allowKey true).moveTo s.cursor.advance).push .blockEntry)

def fetchKey (s : Scanner) : Option Scanner := do
  if !s.inFlow && !s.keyAllowed then none
  else
    let s ← (s.roll s.cursor.col none .blockMappingStart).removeKey
    pure (((s.allowKey !s.inFlow).moveTo s.cursor.advance).push .key)

def fetchValue (s : Scanner) : Option Scanner :=
  if s.key.possible then
    let s := (s.insertAt s.key.tokenNumber .key).roll s.key.place.col (some s.key.tokenNumber)
      .blockMappingStart
    let s := { s with key := { s.key with possible := false } }
    some (((s.allowKey false).moveTo s.cursor.advance).push .value)
  else if !s.inFlow && !s.keyAllowed then none
  else
    let s := s.roll s.cursor.col none .blockMappingStart
    some (((s.allowKey !s.inFlow).moveTo s.cursor.advance).push .value)

def fetchAnchor (s : Scanner) (t : String → Token) : Option Scanner := do
  let s ← s.saveKey
  let (name, c) ← readAnchor s.cursor
  pure (((s.allowKey false).moveTo c).push (t name))

def fetchTag (s : Scanner) : Option Scanner := do
  let s ← s.saveKey
  let (tag, c) ← readTag s.cursor
  pure (((s.allowKey false).moveTo c).push (.tag tag))

def fetchBlockScalar (s : Scanner) (literal : Bool) : Option Scanner := do
  let s ← s.saveKey
  let (text, c) ← readBlock literal s.indent s.cursor.advance
  pure (((s.allowKey true).moveTo c).push (.scalar text false))

def fetchQuoted (s : Scanner) (single : Bool) : Option Scanner := do
  let s ← s.saveKey
  let (text, c) ← readQuoted single (s.cursor.rest.length + 1) .start s.cursor.advance
  let s := { s with adjacentValueAt := c.index }
  pure (((s.allowKey false).moveTo c).push (.scalar text false))

def fetchPlain (s : Scanner) : Option Scanner := do
  let s ← s.saveKey
  let (text, newLine, c) ←
    readPlain s.inFlow (s.indent + 1).toNat (s.cursor.rest.length + 1) .start s.cursor
  pure (((s.allowKey newLine).moveTo c).push (.scalar text true))

/-- Reads the token that begins with `c`, before `rest`. -/
def fetchBy (s : Scanner) (c : Char) (rest : List Char) : Option Scanner :=
  if s.cursor.col = 0 && c = '%' then s.fetchDirective
  else if s.cursor.atDocumentMark then s.fetchDocumentMark
  else
    match c with
    | '[' => s.fetchFlowStart .flowSequenceStart
    | '\x7b' => s.fetchFlowStart .flowMappingStart
    | ']' => s.fetchFlowEnd .flowSequenceEnd
    | '\x7d' => s.fetchFlowEnd .flowMappingEnd
    | ',' => s.fetchFlowEntry
    | '-' => if blankAhead rest then s.fetchBlockEntry else s.fetchPlain
    | '?' => if blankAhead rest then s.fetchKey else s.fetchPlain
    | ':' =>
      if blankAhead rest ||
          (s.inFlow && (rest.head?.any isFlowMark || s.cursor.index = s.adjacentValueAt)) then
        s.fetchValue
      else s.fetchPlain
    | '*' => s.fetchAnchor .alias
    | '&' => s.fetchAnchor .anchor
    | '!' => s.fetchTag
    | '|' => if s.inFlow then s.fetchPlain else s.fetchBlockScalar true
    | '>' => if s.inFlow then s.fetchPlain else s.fetchBlockScalar false
    | '\'' => s.fetchQuoted true
    | '"' => s.fetchQuoted false
    | '%' => none
    | '@' => none
    | '\x60' => none
    | _ => s.fetchPlain

/-- Reads tokens to the end of the text. -/
def run : Nat → Scanner → Option (Array Token)
  | 0, _ => none
  | fuel + 1, s => do
    let s ← (s.skipGap (s.cursor.rest.length + 1)).dropStale
    let s := s.unroll s.cursor.col
    match s.cursor.rest with
    | [] => (s.unroll (-1)).removeKey.map (·.tokens)
    | c :: rest =>
      let s ← s.fetchBy c rest
      run fuel s

end Scanner

/-- The tokens of a text, which ends at its first NUL. -/
def Token.ofText? (text : String) : Option (List Token) :=
  let s := text.toList.takeWhile (· ≠ '\x00')
  (Scanner.run (s.length + 2) (.start s)).map Array.toList

end NodeFleet.Markup
