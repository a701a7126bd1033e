import NodeFleet.Cloud.Account
import NodeFleet.Cloud.InventoryFile
import NodeFleet.Fleet.Journal
import NodeFleet.Quota.Limiter
/-!
Everything that activities share: the clock, the cloud and its quotas, the sizes last asked for, the
registry with its journal, and the lines in which activities wait for their turn. The first in a
line has the turn.
-/

set_option autoImplicit false
set_option relaxedAutoImplicit false

namespace NodeFleet.Fleet

open NodeFleet.Quota

inductive Cloud
  | account (a : Account)
  | directory (d : InventoryDirectory)

/-- What a configuration names as its source of scale sets; a directory has to be there. -/
def Cloud.ofProvider? (files : Files) : Config.Provider → Option Cloud
  | .mock => some (.account .empty)
  | .file path => (InventoryDirectory.open? files path).map .directory

/-- What lies between a fleet and its cloud. With any answers and delays of its own, it makes a
source of scale sets of any other kind out of the cloud. -/
structure Line where
  /-- Answers that come in place of those of the cloud. -/
  instead : (resourceGroup : String) → (q : Query) → Option (Except CloudError q.Answer)
  /-- Milliseconds by which an answer comes later. -/
  delay : Query → Nat

/-- A line that passes everything on at once. -/
def Line.clear : Line := ⟨fun _ _ ↦ none, fun _ ↦ 0⟩

/-- The buckets before the cloud: questions about scale sets draw on one, member listings on the
other. -/
structure Quotas (α : Type) where
  scaleSets : Limiter α
  virtualMachines : Limiter α

namespace Quotas

variable {α : Type} [Balance α]

def ofLimits (l : Limits) (now : Nat) : Quotas α where
  scaleSets := .new .virtualMachineScaleSet (l.forCategory .virtualMachineScaleSet) now
  virtualMachines := .new .virtualMachine (l.forCategory .virtualMachine) now

def take (now : Nat) (q : Query) (quotas : Quotas α) : Quotas α × Option Duration :=
  match q with
  | .members _ =>
    let (l, wait) := quotas.virtualMachines.take now .read
    ({ quotas with virtualMachines := l }, wait)
  | _ =>
    let (l, wait) := quotas.scaleSets.take now .read
    ({ quotas with scaleSets := l }, wait)

end Quotas

/-- The size of a group when last asked for, and the activities that want it. -/
structure SizeCell where
  size : Option Nat
  askedAt : Option Nat
  line : List Ticket
  deriving Repr, Inhabited

def SizeCell.empty : SizeCell := ⟨none, none, []⟩

structure World (α : Type) where
  /-- Milliseconds since the beginning. -/
  now : Nat
  cloud : Cloud
  line : Line
  files : Files
  quotas : Option (Quotas α)
  /-- By the serial number of a group. -/
  cells : Array SizeCell
  registry : Snapshot
  /-- The lower-case names that are explicitly configured. -/
  pinned : List String
  refreshedAt : Option Nat
  /-- The activities that want to run a discovery cycle. -/
  gate : List Ticket
  journal : Journal

namespace World

variable {α : Type}

def start (cloud : Cloud) (files : Files) (quotas : Option (Quotas α)) : World α :=
  ⟨0, cloud, .clear, files, quotas, #[], .empty, [], none, [], .empty⟩

/-! The cloud. -/

def answer (w : World α) (resourceGroup : String) (q : Query) : Except CloudError q.Answer :=
  (w.line.instead resourceGroup q).getD
    (match w.cloud with
      | .account a => a.answer resourceGroup q
      | .directory d => d.answer w.files resourceGroup q)

/-- Puts a question to the cloud, and tells when it will be answered. -/
def ask (w : World α) (q : Query) : World α × Nat :=
  match w.cloud with
  | .account a =>
    ({ w with cloud := .account { a with calls := a.calls.count q } },
      w.now + a.latency + w.line.delay q)
  | .directory _ => (w, w.now + w.line.delay q)

/-- Takes a token for a question, or tells when to try again. -/
def draw [Balance α] (w : World α) (q : Query) : World α × Option Nat :=
  match w.quotas with
  | none => (w, none)
  | some quotas =>
    let (quotas, wait) := quotas.take w.now q
    ({ w with quotas := some quotas }, wait.map (wakeAfter w.now))

def changeAccount (w : World α) (f : Account → Account) : World α :=
  match w.cloud with
  | .account a => { w with cloud := .account (f a) }
  | .directory _ => w

/-! Groups and their sizes. -/

/-- Forgets groups, pins and refreshes, but not the handles that were given out. -/
def forgetGroups (w : World α) : World α :=
  { w with registry := .empty, pinned := [], refreshedAt := none }

def cell (w : World α) (g : NodeGroup) : SizeCell :=
  w.cells[g.serial]?.getD .empty

def changeCell (w : World α) (g : NodeGroup) (f : SizeCell → SizeCell) : World α :=
  { w with cells := w.cells.modify g.serial f }

/-- A new handle, whose size is unknown. -/
def newGroup (w : World α) (c : Discovery.Candidate) (period : Duration) : World α × NodeGroup :=
  ({ w with cells := w.cells.push .empty }, ⟨w.cells.size, c.name, c.bounds, period⟩)

def newGroups (w : World α) : List Discovery.Candidate → World α × List NodeGroup
  | [] => (w, [])
  | c :: rest =>
    let (w, g) := w.newGroup c defaultSizePeriod
    let (w, gs) := w.newGroups rest
    (w, g :: gs)

/-- The size of a group, if it was asked for within the group's period. -/
def knownSize? (w : World α) (g : NodeGroup) : Option Nat :=
  match (w.cell g).size, (w.cell g).askedAt with
  | some size, some askedAt => if g.sizePeriod.outlasts (w.now - askedAt) then some size else none
  | _, _ => none

/-! The registry, written directly. -/

def register (w : World α) (c : Discovery.Candidate) : World α × Bool :=
  let (w, g) := w.newGroup c defaultSizePeriod
  let (registry, changed) := w.registry.register g
  ({ w with registry, journal := w.journal.write (.register g) }, changed)

def unregister (w : World α) (name : String) : World α × Bool :=
  let (registry, changed) := w.registry.unregister name
  ({ w with registry, journal := w.journal.write (.unregister name) }, changed)

def replace (w : World α) (candidates : List Discovery.Candidate) (instances : Table String) :
    World α × Nat :=
  let (w, groups) := w.newGroups candidates
  let registry := w.registry.replace groups instances
  ({ w with registry, journal := w.journal.write (.replace groups instances) }, registry.version)

end World

/-- What polling an activity comes to. -/
inductive Progress (σ ρ : Type)
  | waiting (state : σ)
  | finished (result : ρ)

/-- The earlier of two moments that may never come. -/
def earlier : Option Nat → Option Nat → Option Nat
  | none, b => b
  | a, none => a
  | some a, some b => some (min a b)

end NodeFleet.Fleet
