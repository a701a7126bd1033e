import NodeFleet.Duration
import NodeFleet.Number.Integer
import NodeFleet.Text.Blank
/-!
Durations written as amounts with units, such as `1h 30m` or `1.5s`. Blanks may stand around amounts
and units, the amounts add up, and no amount may leave the range of unsigned words on the way.
-/

set_option autoImplicit false
set_option relaxedAutoImplicit false

namespace NodeFleet.Duration

open NodeFleet.Number NodeFleet.Text

/-- A unit of less than a second counts in nanoseconds, the others in seconds. A part of an hour or
of a longer unit has to come to whole seconds, a part of a shorter one to whole nanoseconds. -/
inductive PhraseUnit
  | nanosecond
  | microsecond
  | millisecond
  | second
  | minute
  | long (seconds : Nat)
  deriving DecidableEq, Repr

def phraseUnit? (name : String) : Option PhraseUnit :=
  if name ∈ ["nanos", "nsec", "ns"] then some .nanosecond
  else if name ∈ ["usec", "us", "µs"] then some .microsecond
  else if name ∈ ["millis", "msec", "ms"] then some .millisecond
  else if name ∈ ["seconds", "second", "secs", "sec", "s"] then some .second
  else if name ∈ ["minutes", "minute", "min", "mins", "m"] then some .minute
  else if name ∈ ["hours", "hour", "hrs", "hr", "h"] then some (.long 3600)
  else if name ∈ ["days", "day", "d"] then some (.long 86400)
  else if name ∈ ["weeks", "week", "wk", "wks", "w"] then some (.long 604800)
  else if name ∈ ["months", "month", "M"] then some (.long 2630016)
  else if name ∈ ["years", "year", "yr", "yrs", "y"] then some (.long 31557600)
  else none

def word? (n : Nat) : Option Nat :=
  if n ≤ maxUnsigned64 then some n else none

def exactly? (n d : Nat) : Option Nat :=
  if n % d = 0 then some (n / d) else none

/-- The decimal places after a point as a fraction. -/
structure Places where
  numerator : Nat
  denominator : Nat

/-- Seconds and nanoseconds of a whole amount. -/
def wholeAmount (n : Nat) : PhraseUnit → Option (Nat × Nat)
  | .nanosecond => some (0, n)
  | .microsecond => (word? (n * 1000)).map (0, ·)
  | .millisecond => (word? (n * 1000000)).map (0, ·)
  | .second => some (n, 0)
  | .minute => (word? (n * 60)).map (·, 0)
  | .long s => (word? (n * s)).map (·, 0)

/-- Seconds and nanoseconds of a part of a unit. -/
def partAmount (p : Places) : PhraseUnit → Option (Nat × Nat)
  | .nanosecond => none
  | .microsecond => nanos 1000
  | .millisecond => nanos 1000000
  | .second => nanos 1000000000
  | .minute => nanos 60000000000
  | .long s => do
    let scaled ← word? (p.numerator * s)
    let whole ← exactly? scaled p.denominator
    pure (whole, 0)
where
  nanos (unit : Nat) : Option (Nat × Nat) := do
    let scaled ← word? (p.numerator * unit)
    let whole ← exactly? scaled p.denominator
    pure (0, whole)

def extend? (d : Duration) (amount : Nat × Nat) : Option Duration := do
  let _ ← word? (d.subsecond + amount.2)
  let total := d.nanos + amount.1 * 1000000000 + amount.2
  let _ ← word? (total / 1000000000)
  pure ⟨total⟩

def addAmount? (d : Duration) (n : Nat) (places : Option Places) (unitName : List Char) :
    Option Duration := do
  let unit ← phraseUnit? (String.ofList unitName)
  let whole ← extend? d (← wholeAmount n unit)
  match places with
  | none => pure whole
  | some p => extend? whole (← partAmount p unit)

def isUnitLetter (c : Char) : Bool :=
  c.isAlpha || c = 'µ'

/-- The places after a point, up to the first letter of the unit. -/
def readPlaces (p : Places) : List Char → Option (Places × List Char)
  | [] => if p.denominator = 1 then none else some (p, [])
  | c :: rest =>
    if c.isDigit then do
      let denominator ← word? (p.denominator * 10)
      let numerator ← word? (p.numerator * 10 + digitValue c)
      readPlaces ⟨numerator, denominator⟩ rest
    else if isBlank c then readPlaces p rest
    else if isUnitLetter c then if p.denominator = 1 then none else some (p, c :: rest)
    else none

/-- The rest of a number, up to the first letter of the unit. -/
def readAmount (n : Nat) : List Char → Option (Nat × Option Places × List Char)
  | [] => some (n, none, [])
  | c :: rest =>
    if c.isDigit then do
      let next ← word? (n * 10 + digitValue c)
      readAmount next rest
    else if isBlank c then readAmount n rest
    else if isUnitLetter c then some (n, none, c :: rest)
    else if c = '.' then (readPlaces ⟨0, 1⟩ rest).map fun r ↦ (n, some r.1, r.2)
    else none

/-- Amounts and units, added to what came before; the rounds are bounded by the text's length. -/
def readTerms : Nat → Duration → List Char → Option Duration
  | 0, _, _ => none
  | fuel + 1, total, s =>
    match trimLeft s with
    | [] => some total
    | c :: rest =>
      if c.isDigit then do
        let (n, places, afterNumber) ← readAmount (digitValue c) rest
        let afterUnit := afterNumber.dropWhile isUnitLetter
        let next ← addAmount? total n places (afterNumber.takeWhile isUnitLetter)
        match afterUnit with
        | [] => pure next
        | d :: _ => if d.isDigit || isBlank d then readTerms fuel next afterUnit else none
      else none

/-- A bare zero needs no unit. -/
def ofPhrase? (text : String) : Option Duration :=
  let s := text.toList
  if text = "0" then some ⟨0⟩
  else if trimLeft s = [] then none
  else readTerms (s.length + 1) ⟨0⟩ s

end NodeFleet.Duration
