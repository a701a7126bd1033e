import NodeFleet.Fleet.Inquiry
/-!
Requests for the size of a group. The requests for one group take turns; whoever has the turn takes
the known size if it is recent enough, and otherwise asks for it and writes it down.
-/

set_option autoImplicit false
set_option relaxedAutoImplicit false

namespace NodeFleet.Fleet

open NodeFleet.Quota

inductive SizePhase
  | queued
  | asking (i : Inquiry)
  deriving DecidableEq, Repr

variable {α : Type}

namespace World

def joinLine (w : World α) (g : NodeGroup) (t : Ticket) : World α :=
  w.changeCell g fun c ↦ { c with line := c.line ++ [t] }

def leaveLine (w : World α) (g : NodeGroup) (t : Ticket) : World α :=
  w.changeCell g fun c ↦ { c with line := c.line.filter (· ≠ t) }

def hasTurn (w : World α) (g : NodeGroup) (t : Ticket) : Bool :=
  (w.cell g).line.head? == some t

def recordSize (w : World α) (g : NodeGroup) (size : Nat) : World α :=
  w.changeCell g fun c ↦ { c with size := some size, askedAt := some w.now }

/-- What an answer does to a request that has the turn. -/
def settleSize (w : World α) (g : NodeGroup) (t : Ticket) :
    Except Error ScaleSet → World α × Except Error Nat
  | .ok s => ((w.recordSize g s.capacity).leaveLine g t, .ok s.capacity)
  | .error e => (w.leaveLine g t, .error e)

def pollAsking [Balance α] (w : World α) (site : Site) (g : NodeGroup) (t : Ticket) (i : Inquiry) :
    World α × Progress SizePhase (Except Error Nat) :=
  match w.pollInquiry site (.scaleSet g.name) i with
  | (w, .waiting i) => (w, .waiting (.asking i))
  | (w, .finished answer) =>
    let (w, result) := w.settleSize g t answer
    (w, .finished result)

def pollSize [Balance α] (w : World α) (site : Site) (g : NodeGroup) (t : Ticket)
    (phase : SizePhase) : World α × Progress SizePhase (Except Error Nat) :=
  match phase with
  | .asking i => w.pollAsking site g t i
  | .queued =>
    if w.hasTurn g t then
      match w.knownSize? g with
      | some size => (w.leaveLine g t, .finished (.ok size))
      | none => w.pollAsking site g t (.start site w.now)
    else (w, .waiting .queued)

/-- Joins the line of a group and goes as far as that goes at once. -/
def startSize [Balance α] (w : World α) (site : Site) (g : NodeGroup) (t : Ticket) :
    World α × Progress SizePhase (Except Error Nat) :=
  (w.joinLine g t).pollSize site g t .queued

end World

namespace SizePhase

def wake : SizePhase → Option Nat
  | queued => none
  | asking i => i.wake

def isReady (w : World α) (g : NodeGroup) (t : Ticket) : SizePhase → Bool
  | queued => w.hasTurn g t
  | asking i => i.isReady w.now

end SizePhase

end NodeFleet.Fleet
