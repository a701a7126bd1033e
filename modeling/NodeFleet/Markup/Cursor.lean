/-!
A place in a text: what is left of it, and the index, line and column reached.
-/

set_option autoImplicit false
set_option relaxedAutoImplicit false

namespace NodeFleet.Markup

def isBreak (c : Char) : Bool :=
  c = '\n' || c = '\r'

def isBlankChar (c : Char) : Bool :=
  c = ' ' || c = '\t'

/-- A word character of anchors, tag handles and directives. -/
def isWord (c : Char) : Bool :=
  c.isAlphanum || c = '_' || c = '-'

def isFlowMark (c : Char) : Bool :=
  c = ',' || c = '[' || c = ']' || c = '\x7b' || c = '\x7d'

def isHex (c : Char) : Bool :=
  c.isDigit || ('a' ≤ c && c ≤ 'f') || ('A' ≤ c && c ≤ 'F')

def hexValue (c : Char) : Nat :=
  if c.isDigit then c.toNat - '0'.toNat
  else if c ≤ 'F' then c.toNat - 'A'.toNat + 10
  else c.toNat - 'a'.toNat + 10

structure Cursor where
  rest : List Char
  index : Nat
  line : Nat
  col : Nat

namespace Cursor

def start (s : List Char) : Cursor := ⟨s, 0, 0, 0⟩

/-- Passes one character; only a line feed begins a new line. -/
def advance (c : Cursor) : Cursor :=
  match c.rest with
  | [] => c
  | '\n' :: rest => ⟨rest, c.index + 1, c.line + 1, 0⟩
  | _ :: rest => ⟨rest, c.index + 1, c.line, c.col + 1⟩

def advanceBy (c : Cursor) : Nat → Cursor
  | 0 => c
  | n + 1 => c.advance.advanceBy n

/-- Passes the longest run of characters with the property. -/
def span (p : Char → Bool) (c : Cursor) : List Char × Cursor :=
  let run := c.rest.takeWhile p
  (run, c.advanceBy run.length)

def skipWhile (p : Char → Bool) (c : Cursor) : Cursor :=
  (c.span p).2

/-- Passes a line break, of two characters if it is a carriage return and a line feed. -/
def skipBreak (c : Cursor) : Cursor :=
  match c.rest with
  | '\r' :: '\n' :: _ => c.advanceBy 2
  | _ => c.advance

def peekIs (p : Char → Bool) (c : Cursor) : Bool :=
  c.rest.head?.any p

/-- At the end of the text, or before a character with the property. -/
def endsOr (p : Char → Bool) (c : Cursor) : Bool :=
  c.rest.head?.all p

def atEnd (c : Cursor) : Bool :=
  c.rest.isEmpty

/-- Passes a comment up to the end of its line. -/
def skipComment (c : Cursor) : Cursor :=
  if c.peekIs (· = '#') then c.skipWhile fun d ↦ !isBreak d else c

end Cursor

def isBlankOrBreak (c : Char) : Bool :=
  isBlankChar c || isBreak c

/-- Whether the text goes on with a blank, with a line break or not at all. -/
def blankAhead (s : List Char) : Bool :=
  s.head?.all isBlankOrBreak

/-- A line of three hyphens or three points, which bounds documents. -/
def Cursor.atDocumentMark (c : Cursor) : Bool :=
  c.col = 0 &&
    match c.rest with
    | '-' :: '-' :: '-' :: rest => blankAhead rest
    | '.' :: '.' :: '.' :: rest => blankAhead rest
    | _ => false

end NodeFleet.Markup
