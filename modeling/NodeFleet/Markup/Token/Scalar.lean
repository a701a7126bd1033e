import NodeFleet.Markup.Cursor
/-!
Scalars: plain ones and quoted ones, whose lines fold into one, and block scalars, whose lines are
kept or folded by a rule of their own. Each reader gives the scalar's text and the place after it.
-/

set_option autoImplicit false
set_option relaxedAutoImplicit false

namespace NodeFleet.Markup

/-- A scalar under construction: its text, the blanks after it on the line, and, once the line has
ended, whether it was a break of the text that ended it and how many empty lines followed. -/
structure Folding where
  text : String
  blanks : String
  newLine : Bool
  firstBreak : Bool
  emptyLines : Nat

namespace Folding

def start : Folding := ⟨"", "", false, false, 0⟩

def lineFeeds (n : Nat) : String :=
  String.ofList (List.replicate n '\n')

/-- What the blanks or line breaks come to before more text: blanks stay as they are, one break is
a space, and further ones are line feeds. -/
def join (f : Folding) : Folding :=
  if f.newLine then
    let gap := if f.firstBreak && f.emptyLines = 0 then " " else lineFeeds f.emptyLines
    ⟨f.text ++ gap, "", false, false, 0⟩
  else ⟨f.text ++ f.blanks, "", false, false, 0⟩

def add (f : Folding) (s : String) : Folding :=
  { f with text := f.text ++ s }

/-- Passes blanks and line breaks. A tab before column `indent` of a later line is refused. -/
def gap (indent : Nat) : Nat → Folding → Cursor → Option (Folding × Cursor)
  | 0, _, _ => none
  | fuel + 1, f, c =>
    match c.rest with
    | [] => some (f, c)
    | d :: _ =>
      if isBlankChar d then
        if f.newLine then
          if d = '\t' && c.col < indent then none else gap indent fuel f c.advance
        else gap indent fuel { f with blanks := f.blanks.push d } c.advance
      else if isBreak d then
        if f.newLine then gap indent fuel { f with emptyLines := f.emptyLines + 1 } c.skipBreak
        else gap indent fuel { f with blanks := "", newLine := true, firstBreak := true }
          c.skipBreak
      else some (f, c)

end Folding

/-- The characters of a plain scalar up to a blank or an indicator that ends it. -/
def plainRun (inFlow : Bool) : List Char → List Char
  | [] => []
  | c :: rest =>
    if isBlankOrBreak c then []
    else if c = ':' && (blankAhead rest || (inFlow && rest.head?.any isFlowMark)) then []
    else if inFlow && isFlowMark c then []
    else c :: plainRun inFlow rest

/-- A plain scalar, and whether it ended on a later line than its last text. -/
def readPlain (inFlow : Bool) (indent : Nat) :
    Nat → Folding → Cursor → Option (String × Bool × Cursor)
  | 0, _, _ => none
  | fuel + 1, f, c =>
    if c.atDocumentMark || c.peekIs (· = '#') then some (f.text, f.newLine, c)
    else
      let run := plainRun inFlow c.rest
      let f := if run.isEmpty then f else f.join.add (String.ofList run)
      let c := c.advanceBy run.length
      if c.peekIs isBlankOrBreak then
        match f.gap indent (c.rest.length + 1) c with
        | none => none
        | some (f, c) =>
          if !inFlow && c.col < indent then some (f.text, f.newLine, c)
          else readPlain inFlow indent fuel f c
      else some (f.text, f.newLine, c)

/-- The character of a hexadecimal escape of the given length. -/
def hexEscape? (length : Nat) (s : List Char) : Option Char :=
  let digits := s.take length
  if digits.length = length ∧ digits.all isHex then
    let n := digits.foldl (fun n d ↦ n * 16 + hexValue d) 0
    if n.isValidChar then some (Char.ofNat n) else none
  else none

/-- The character that an escape stands for and the length of the escape with its backslash. -/
def escape? : List Char → Option (Char × Nat)
  | '0' :: _ => some ('\x00', 2)
  | 'a' :: _ => some ('\x07', 2)
  | 'b' :: _ => some ('\x08', 2)
  | 't' :: _ => some ('\t', 2)
  | '\t' :: _ => some ('\t', 2)
  | 'n' :: _ => some ('\n', 2)
  | 'v' :: _ => some ('\x0b', 2)
  | 'f' :: _ => some ('\x0c', 2)
  | 'r' :: _ => some ('\r', 2)
  | 'e' :: _ => some ('\x1b', 2)
  | ' ' :: _ => some (' ', 2)
  | '"' :: _ => some ('"', 2)
  | '\'' :: _ => some ('\'', 2)
  | '\\' :: _ => some ('\\', 2)
  | 'N' :: _ => some ('\u0085', 2)
  | '_' :: _ => some ('\u00a0', 2)
  | 'L' :: _ => some ('\u2028', 2)
  | 'P' :: _ => some ('\u2029', 2)
  | 'x' :: rest => (hexEscape? 2 rest).map (·, 4)
  | 'u' :: rest => (hexEscape? 4 rest).map (·, 6)
  | 'U' :: rest => (hexEscape? 8 rest).map (·, 10)
  | _ => none

/-- The characters of a quoted scalar up to a blank, a break or the closing quote. -/
def quotedRun (single : Bool) : Nat → Folding → Cursor → Option (Folding × Cursor)
  | 0, _, _ => none
  | fuel + 1, f, c =>
    match c.rest with
    | [] => some (f, c)
    | d :: rest =>
      if isBlankOrBreak d then some (f, c)
      else if single then
        if d = '\'' then
          match rest with
          | '\'' :: _ => quotedRun single fuel (f.add "'") (c.advanceBy 2)
          | _ => some (f, c)
        else quotedRun single fuel (f.add d.toString) c.advance
      else if d = '"' then some (f, c)
      else if d = '\\' then
        if rest.head?.any isBreak then some ({ f with newLine := true }, c.advance.skipBreak)
        else
          match escape? rest with
          | none => none
          | some (e, length) => quotedRun single fuel (f.add e.toString) (c.advanceBy length)
      else quotedRun single fuel (f.add d.toString) c.advance

/-- A quoted scalar after its opening quote. -/
def readQuoted (single : Bool) : Nat → Folding → Cursor → Option (String × Cursor)
  | 0, _, _ => none
  | fuel + 1, f, c =>
    if c.atDocumentMark || c.atEnd then none
    else
      match quotedRun single (c.rest.length + 1) f c with
      | none => none
      | some (f, c) =>
        if c.peekIs (· = if single then '\'' else '"') then some (f.text, c.advance)
        else
          match f.gap 0 (c.rest.length + 1) c with
          | none => none
          | some (f, c) => readQuoted single fuel f.join c

/-- What becomes of the line breaks at the end of a block scalar. -/
inductive Chomping
  | strip
  | clip
  | keep
  deriving DecidableEq

/-- Passes the indentation and the empty lines before a line of a block scalar, and counts the
lines. The indentation is `indent`; while it is zero, it is found as the widest one passed. -/
def blockIndent (indent : Nat) : Nat → Nat → Nat → Cursor → Option (Nat × Nat × Cursor)
  | 0, _, _, _ => none
  | fuel + 1, widest, lines, c =>
    let room := if indent = 0 then c.rest.length else indent - c.col
    let spaces := ((c.rest.take room).takeWhile (· = ' ')).length
    let c := c.advanceBy spaces
    let widest := max widest c.col
    if (indent = 0 || c.col < indent) && c.peekIs (· = '\t') then none
    else if c.peekIs isBreak then blockIndent indent fuel widest (lines + 1) c.skipBreak
    else some (widest, lines, c)

/-- The lines of a block scalar at the indentation found. `broken` tells of a break after the text,
`empty` counts the empty lines since, and `blank` tells whether the last line began with a blank. -/
def blockLines (literal : Bool) (indent : Nat) :
    Nat → String → Bool → Nat → Bool → Cursor → Option (String × Bool × Nat × Cursor)
  | 0, _, _, _, _, _ => none
  | fuel + 1, text, broken, empty, blank, c =>
    if c.col = indent && !c.atEnd then
      let blankHere := c.peekIs isBlankChar
      let gap :=
        if !literal && broken && !blank && !blankHere then if empty = 0 then " " else ""
        else if broken then "\n"
        else ""
      let (line, c) := c.span fun d ↦ !isBreak d
      let text := text ++ gap ++ Folding.lineFeeds empty ++ String.ofList line
      if c.atEnd then some (text, false, 0, c)
      else
        match blockIndent indent (c.rest.length + 1) 0 0 c.skipBreak with
        | none => none
        | some (_, lines, c) => blockLines literal indent fuel text true lines blankHere c
    else some (text, broken, empty, c)

/-- The marks after the indicator of a block scalar: chomping and indentation, in either order. -/
def blockHeader (c : Cursor) : Option (Chomping × Nat × Cursor) :=
  let chomping? (c : Cursor) : Option (Chomping × Cursor) :=
    match c.rest with
    | '+' :: _ => some (.keep, c.advance)
    | '-' :: _ => some (.strip, c.advance)
    | _ => none
  let increment? (c : Cursor) : Option (Nat × Cursor) :=
    match c.rest with
    | d :: _ => if d.isDigit then some (d.toNat - '0'.toNat, c.advance) else none
    | [] => none
  let (chomping, increment, c) : Chomping × Option Nat × Cursor :=
    match chomping? c with
    | some (chomping, c) =>
      match increment? c with
      | some (n, c) => (chomping, some n, c)
      | none => (chomping, none, c)
    | none =>
      match increment? c with
      | some (n, c) =>
        match chomping? c with
        | some (chomping, c) => (chomping, some n, c)
        | none => (.clip, some n, c)
      | none => (.clip, none, c)
  if increment = some 0 then none else some (chomping, increment.getD 0, c)

/-- A block scalar after its indicator, inside a block at column `parent` or, with `-1`, in none. -/
def readBlock (literal : Bool) (parent : Int) (c : Cursor) : Option (String × Cursor) := do
  let (chomping, increment, c) ← blockHeader c
  let c := (c.skipWhile isBlankChar).skipComment
  if !c.endsOr isBreak then none
  else
    let c := if c.atEnd then c else c.skipBreak
    let given := if increment = 0 then 0 else (max parent 0).toNat + increment
    let (widest, lines, c) ← blockIndent given (c.rest.length + 1) 0 0 c
    let indent := if given = 0 then max (max widest (parent + 1).toNat) 1 else given
    let (text, broken, empty, c) ←
      blockLines literal indent (c.rest.length + 1) "" false lines false c
    let tail :=
      match chomping with
      | .strip => ""
      | .clip => if broken then "\n" else ""
      | .keep => (if broken then "\n" else "") ++ Folding.lineFeeds empty
    pure (text ++ tail, c)

end NodeFleet.Markup
