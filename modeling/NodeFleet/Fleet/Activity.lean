import NodeFleet.Fleet.Refresher
import NodeFleet.Fleet.Sizing
/-!
The operations of a fleet, and the activities that they are while they wait: each carries what it
still has to do, and polling it carries it on as far as it goes at once.
-/

set_option autoImplicit false
set_option relaxedAutoImplicit false

namespace NodeFleet.Fleet

open NodeFleet.Discovery NodeFleet.Quota

inductive Operation
  | pause (millis : Nat)
  | call (resourceGroup : String) (query : Query)
  | inquire (query : Query)
  | resolveExplicit (specs : List ExplicitSpec)
  | resolveSelectors (selectors : List Selector)
  /-- Resolves selectors from their texts. -/
  | preview (labels : List String)
  | size (group : NodeGroup)
  | fetchExplicit (texts : List String)
  | fetchAuto
  /-- Refreshes if the interval has passed. -/
  | refresh
  | forceRefresh
  /-- The first discovery of a fleet: its explicit specs, then a refresh. -/
  | create
  | refreshEvery (millis : Nat)

inductive Outcome
  | done
  | answer (query : Query) (answer : query.Answer)
  | unanswered (error : CloudError)
  | groups (groups : List NodeGroup)
  | size (size : Nat)
  | failed (error : Error)

/-- What a resolution looks for in a listing. -/
inductive Wanted
  | explicit (specs : List ExplicitSpec)
  | selected (selectors : List Selector)

namespace Wanted

def isNothing : Wanted → Bool
  | explicit specs => specs.isEmpty
  | selected selectors => selectors.isEmpty

def candidates (scaleSets : List ScaleSet) : Wanted → Except Error (List Candidate)
  | explicit specs => .ok (explicitCandidates specs scaleSets)
  | selected selectors => selectedCandidates selectors scaleSets

end Wanted

/-- What an activity does with a discovery cycle. -/
inductive Errand
  | fetch (cycle : Cycle)
  | refresh
  /-- Fetches the explicit groups of the site and then refreshes. -/
  | create

namespace Errand

def cycle (site : Site) : Errand → Cycle
  | fetch cycle => cycle
  | refresh => .auto
  | create => .explicit site.explicitSpecs

end Errand

inductive Activity
  | pausing (wake : Nat)
  | calling (resourceGroup : String) (query : Query) (phase : CallPhase)
  | inquiring (query : Query) (inquiry : Inquiry)
  | resolving (wanted : Wanted) (inquiry : Inquiry)
  | sizing (group : NodeGroup) (phase : SizePhase)
  | discovering (errand : Errand) (phase : CyclePhase)
  | refreshing (refresher : Refresher)

variable {α : Type}

namespace Activity

def wake : Activity → Option Nat
  | pausing wake => some wake
  | calling _ _ phase => phase.wake
  | inquiring _ i => i.wake
  | resolving _ i => i.wake
  | sizing _ phase => phase.wake
  | discovering _ phase => phase.wake
  | refreshing r => r.wake

/-- Whether polling can carry the activity on now. -/
def isReady (w : World α) (t : Ticket) : Activity → Bool
  | pausing wake => wake ≤ w.now
  | calling _ _ phase => phase.wake.any (· ≤ w.now)
  | inquiring _ i => i.isReady w.now
  | resolving _ i => i.isReady w.now
  | sizing g phase => phase.isReady w g t
  | discovering _ phase => phase.isReady w t
  | refreshing r => r.isReady w t

/-- Activities that nobody waits for. -/
def isBackground : Activity → Bool
  | refreshing _ => true
  | _ => false

end Activity

/-- The world after some activity, and the activity or its outcome. -/
abbrev Step (α : Type) := World α × Progress Activity Outcome

namespace World

def ofResult {ρ : Type} (success : ρ → Outcome) : Except Error ρ → Outcome
  | .ok r => success r
  | .error e => .failed e

/-- Makes an activity or an outcome of the progress of a part. -/
def wrap {σ ρ : Type} (state : σ → Activity) (result : ρ → Outcome)
    (r : World α × Progress σ ρ) : Step α :=
  match r with
  | (w, .waiting s) => (w, .waiting (state s))
  | (w, .finished x) => (w, .finished (result x))

def wrapCall (resourceGroup : String) (q : Query)
    (r : World α × Progress CallPhase (Except CloudError q.Answer)) : Step α :=
  wrap (.calling resourceGroup q)
    (fun x ↦ match x with
      | .ok a => .answer q a
      | .error e => .unanswered e) r

def wrapInquiry (q : Query) (r : World α × Progress Inquiry (Except Error q.Answer)) : Step α :=
  wrap (.inquiring q) (ofResult (.answer q)) r

/-- Makes groups of what a listing holds. -/
def resolve (w : World α) (wanted : Wanted) (listed : Except Error (List ScaleSet)) :
    World α × Outcome :=
  match listed.bind fun l ↦ wanted.candidates l with
  | .error e => (w, .failed e)
  | .ok candidates =>
    let (w, groups) := w.newGroups candidates
    (w, .groups groups)

def resolveWith (wanted : Wanted) (r : World α × Progress Inquiry (Except Error (List ScaleSet))) :
    Step α :=
  match r with
  | (w, .waiting i) => (w, .waiting (.resolving wanted i))
  | (w, .finished listed) =>
    let (w, outcome) := w.resolve wanted listed
    (w, .finished outcome)

def startResolving [Balance α] (w : World α) (site : Site) (wanted : Wanted) : Step α :=
  if wanted.isNothing then (w, .finished (.groups []))
  else resolveWith wanted (w.startInquiry site .scaleSets)

def wrapSize (g : NodeGroup) (r : World α × Progress SizePhase (Except Error Nat)) : Step α :=
  wrap (.sizing g) (ofResult .size) r

def wrapCycle (errand : Errand) (r : World α × Progress CyclePhase (Except Error Unit)) : Step α :=
  wrap (.discovering errand) (ofResult fun _ ↦ .done) r

/-- What follows a cycle of an errand: a refresh is noted, a creation goes on with a refresh. -/
def afterCycle [Balance α] (site : Site) (t : Ticket) (errand : Errand)
    (r : World α × Progress CyclePhase (Except Error Unit)) : Step α :=
  match errand with
  | .fetch cycle => wrapCycle (.fetch cycle) r
  | .refresh => wrapCycle .refresh (noted r)
  | .create =>
    match r with
    | (w, .finished (.ok ())) => wrapCycle .refresh (w.startRefresh site t)
    | r => wrapCycle .create r

def startErrand [Balance α] (w : World α) (site : Site) (t : Ticket) (errand : Errand) : Step α :=
  afterCycle site t errand (w.startCycle site t (errand.cycle site))

def wrapRefresher (r : World α × Refresher) : Step α :=
  (r.1, if r.2.isOver then .finished .done else .waiting (.refreshing r.2))

def pollActivity [Balance α] (w : World α) (site : Site) (t : Ticket) : Activity → Step α
  | .pausing wake =>
    if wake ≤ w.now then (w, .finished .done) else (w, .waiting (.pausing wake))
  | .calling rg q phase => wrapCall rg q (w.pollCall rg q phase)
  | .inquiring q i => wrapInquiry q (w.pollInquiry site q i)
  | .resolving wanted i => resolveWith wanted (w.pollInquiry site .scaleSets i)
  | .sizing g phase => wrapSize g (w.pollSize site g t phase)
  | .discovering errand phase =>
    afterCycle site t errand (w.pollCycle site t (errand.cycle site) phase)
  | .refreshing r => wrapRefresher (r.poll w site t)

/-- Begins an operation and carries it as far as it goes at once. A refresher waits to be polled. -/
def startOperation [Balance α] (w : World α) (site : Site) (t : Ticket) : Operation → Step α
  | .pause millis => w.pollActivity site t (.pausing (w.now + millis))
  | .call rg q => wrapCall rg q (w.pollCall rg q .fresh)
  | .inquire q => wrapInquiry q (w.startInquiry site q)
  | .resolveExplicit specs => w.startResolving site (.explicit specs)
  | .resolveSelectors selectors => w.startResolving site (.selected selectors)
  | .preview labels =>
    match Selector.parseAll labels with
    | .error e => (w, .finished (.failed e))
    | .ok selectors => w.startResolving site (.selected selectors)
  | .size g => wrapSize g (w.startSize site g t)
  | .fetchExplicit texts =>
    match ExplicitSpec.parseAll texts with
    | .error e => (w, .finished (.failed e))
    | .ok specs => w.startErrand site t (.fetch (.explicit specs))
  | .fetchAuto => w.startErrand site t (.fetch .auto)
  | .refresh =>
    if w.refreshDue site then w.startErrand site t .refresh else (w, .finished .done)
  | .forceRefresh => w.startErrand site t .refresh
  | .create => w.startErrand site t .create
  | .refreshEvery millis => (w, .waiting (.refreshing (.start millis w.now)))

end World

end NodeFleet.Fleet
