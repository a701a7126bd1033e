import NodeFleet.Fleet.World
/-!
Questions on their way: first for a token, then for the answer. An inquiry is a question about the
fleet's own resource group that gives up at a deadline; an answer of that very moment still counts.
-/

set_option autoImplicit false
set_option relaxedAutoImplicit false

namespace NodeFleet.Fleet

open NodeFleet.Quota

inductive CallPhase
  | fresh
  /-- Out of tokens until the given moment. -/
  | throttled (wake : Nat)
  | underWay (due : Nat)
  deriving DecidableEq, Repr

namespace CallPhase

def wake : CallPhase → Option Nat
  | fresh => none
  | throttled wake => some wake
  | underWay due => some due

end CallPhase

variable {α : Type}

namespace World

/-- The answer to a question that is due, or the wait for it. -/
def collect (w : World α) (resourceGroup : String) (q : Query) (due : Nat) :
    World α × Progress CallPhase (Except CloudError q.Answer) :=
  if due ≤ w.now then (w, .finished (w.answer resourceGroup q)) else (w, .waiting (.underWay due))

/-- Puts a question as soon as a token for it can be taken. -/
def attempt [Balance α] (w : World α) (resourceGroup : String) (q : Query) :
    World α × Progress CallPhase (Except CloudError q.Answer) :=
  match w.draw q with
  | (w, some wake) => (w, .waiting (.throttled wake))
  | (w, none) =>
    let (w, due) := w.ask q
    w.collect resourceGroup q due

def pollCall [Balance α] (w : World α) (resourceGroup : String) (q : Query) (phase : CallPhase) :
    World α × Progress CallPhase (Except CloudError q.Answer) :=
  match phase with
  | .fresh => w.attempt resourceGroup q
  | .throttled wake => if wake ≤ w.now then w.attempt resourceGroup q else (w, .waiting phase)
  | .underWay due => w.collect resourceGroup q due

end World

structure Inquiry where
  expires : Nat
  phase : CallPhase
  deriving DecidableEq, Repr

namespace Inquiry

def start (site : Site) (now : Nat) : Inquiry :=
  ⟨now + site.inventoryTimeout.ceilMillis, .fresh⟩

def wake (i : Inquiry) : Option Nat :=
  earlier (some i.expires) i.phase.wake

def isReady (i : Inquiry) (now : Nat) : Bool :=
  i.wake.any (· ≤ now)

end Inquiry

def World.pollInquiry [Balance α] (w : World α) (site : Site) (q : Query) (i : Inquiry) :
    World α × Progress Inquiry (Except Error q.Answer) :=
  match w.pollCall site.resourceGroup q i.phase with
  | (w, .finished (.ok a)) => (w, .finished (.ok a))
  | (w, .finished (.error e)) => (w, .finished (.error (.queryFailed q site.resourceGroup e)))
  | (w, .waiting phase) =>
    if i.expires ≤ w.now then (w, .finished (.error (.deadlineExceeded q site.inventoryTimeout)))
    else (w, .waiting { i with phase })

/-- Begins an inquiry and carries it as far as it goes at once. -/
def World.startInquiry [Balance α] (w : World α) (site : Site) (q : Query) :
    World α × Progress Inquiry (Except Error q.Answer) :=
  w.pollInquiry site q (.start site w.now)

end NodeFleet.Fleet
