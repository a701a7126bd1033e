import Mathlib.Tactic.SplitIfs
import NodeFleet.Fleet.Event
/-!
What the steps of a fleet are made of: attempts to put a question, new handles, and the stages that
a cycle goes through from the gate to its end; requests for sizes also write to the cell of their
group. What holds of a world and of the stage of an activity, and holds on across each of these,
holds across every step of the activity. In particular a relation between worlds does that chains
and holds across all changes to the registry, the pins, the gate and the journal.
-/

set_option autoImplicit false
set_option relaxedAutoImplicit false

namespace NodeFleet.Fleet

open NodeFleet.Discovery NodeFleet.Quota

variable {α : Type} [Balance α]

/-- A relation that inquiries and new handles bear. -/
structure Asking (R : World α → World α → Prop) : Prop where
  refl : ∀ w, R w w
  trans : ∀ {w w' w''}, R w w' → R w' w'' → R w w''
  attempt : ∀ w resourceGroup q, R w (w.attempt resourceGroup q).1
  newGroup : ∀ w c period, R w (w.newGroup c period).1

variable {R : World α → World α → Prop}

/-! ### Inquiries -/

namespace Asking

variable (h : Asking R) (w : World α) (site : Site)

include h

theorem collect (resourceGroup : String) (q : Query) (due : Nat) :
    R w (w.collect resourceGroup q due).1 := by
  unfold World.collect
  split_ifs
  · exact h.refl w
  · exact h.refl w

theorem pollCall (resourceGroup : String) (q : Query) (phase : CallPhase) :
    R w (w.pollCall resourceGroup q phase).1 := by
  cases phase with
  | fresh => exact h.attempt w resourceGroup q
  | throttled wake =>
    dsimp only [World.pollCall]
    split_ifs
    · exact h.attempt w resourceGroup q
    · exact h.refl w
  | underWay due => exact h.collect w resourceGroup q due

theorem pollInquiry (q : Query) (i : Inquiry) : R w (w.pollInquiry site q i).1 := by
  have hcall := h.pollCall w site.resourceGroup q i.phase
  unfold World.pollInquiry
  rcases hpoll : w.pollCall site.resourceGroup q i.phase with ⟨w', phase | e | a⟩
  · rw [hpoll] at hcall
    dsimp only
    split_ifs
    · exact hcall
    · exact hcall
  · rw [hpoll] at hcall
    exact hcall
  · rw [hpoll] at hcall
    exact hcall

theorem newGroups (candidates : List Candidate) : R w (w.newGroups candidates).1 := by
  induction candidates generalizing w with
  | nil => exact h.refl w
  | cons c rest ih => exact h.trans (h.newGroup w c defaultSizePeriod) (ih _)

theorem pollMembers (g : NodeGroup) (l : Listing) : R w (w.pollMembers site g l).1 := by
  cases l with
  | arrived answer => exact h.refl w
  | waiting i =>
    have hasked := h.pollInquiry w site (.members g.name) i
    dsimp only [World.pollMembers]
    rcases hpoll : w.pollInquiry site (.members g.name) i with ⟨w', i' | answer⟩
    · rw [hpoll] at hasked
      exact hasked
    · rw [hpoll] at hasked
      exact hasked

theorem pollListings (groups : List NodeGroup) (listings : List Listing) :
    R w (w.pollListings site groups listings).1 := by
  induction groups generalizing w listings with
  | nil => exact h.refl w
  | cons g groups ih =>
    cases listings with
    | nil => exact h.refl w
    | cons l listings =>
      have hfirst := h.pollMembers w site g l
      unfold World.pollListings
      rcases hpoll : w.pollMembers site g l with ⟨w', l'⟩
      rw [hpoll] at hfirst
      dsimp only
      split_ifs
      · exact hfirst
      · exact h.trans hfirst (ih w' listings)

/-! ### Sizes -/

section

variable (t : Ticket) {g : NodeGroup} (hcell : ∀ w f, R w (World.changeCell w g f))

include hcell

theorem pollAsking (i : Inquiry) : R w (w.pollAsking site g t i).1 := by
  have hasked := h.pollInquiry w site (.scaleSet g.name) i
  unfold World.pollAsking
  rcases hpoll : w.pollInquiry site (.scaleSet g.name) i with ⟨w', i' | e | s⟩
  · rw [hpoll] at hasked
    exact hasked
  · rw [hpoll] at hasked
    exact h.trans hasked (hcell w' _)
  · rw [hpoll] at hasked
    exact h.trans hasked (h.trans (hcell w' _) (hcell _ _))

theorem pollSize (phase : SizePhase) : R w (w.pollSize site g t phase).1 := by
  cases phase with
  | asking i => exact h.pollAsking w site t hcell i
  | queued =>
    dsimp only [World.pollSize]
    split_ifs
    · cases w.knownSize? g with
      | some size => exact hcell w _
      | none => exact h.pollAsking w site t hcell _
    · exact h.refl w

theorem startSize : R w (w.startSize site g t).1 :=
  h.trans (hcell w _) (h.pollSize _ site t hcell .queued)

end

end Asking

/-! ### Cycles -/

/-- Where an activity is with its cycle. -/
inductive Stage
  | idle
  | queued
  | listing
  | planned (b : Brief) (plan : Plan)

def CyclePhase.stage : CyclePhase → Stage
  | queued => .queued
  | listing _ => .listing
  | indexing b plan _ => .planned b plan

namespace Progress

def stage {ρ : Type} : Progress CyclePhase ρ → Stage
  | waiting phase => phase.stage
  | finished _ => .idle

end Progress

def Refresher.stage (r : Refresher) : Stage :=
  match r.running with
  | none => .idle
  | some phase => phase.stage

namespace Activity

def stage : Activity → Stage
  | discovering _ phase => phase.stage
  | refreshing r => r.stage
  | _ => .idle

/-- Where an activity is with its cycle after a step. -/
def stageAfter : Progress Activity Outcome → Stage
  | .waiting a => a.stage
  | .finished _ => .idle

end Activity

/-- What is kept of a world and of the stage of an activity, whatever the activity does, but for
writing down sizes. -/
structure Tended (site : Site) (t : Ticket) (P : World α → Stage → Prop) : Prop where
  asking : ∀ s, Asking fun w w' ↦ P w s → P w' s
  join : ∀ {w}, P w .idle → P (w.joinGate t) .queued
  take : ∀ {w}, P w .queued → P { w with journal := w.journal.giveGate t } .listing
  fault : ∀ {w} cycle listed {e}, (listed.bind fun l ↦ Cycle.candidates site l cycle) = .error e →
    P w .listing → P (({ w with journal := w.journal.settle } : World α).leaveGate
      ⟨t, cycle, listed, w.cells.size⟩ [] none (.error e)) .idle
  plan : ∀ {w} cycle listed {candidates},
    (listed.bind fun l ↦ Cycle.candidates site l cycle) = .ok candidates → P w .listing →
      P (({ w with journal := w.journal.settle } : World α).newGroups candidates).1
        (.planned ⟨t, cycle, listed, w.cells.size⟩
          (cycle.plan (({ w with journal := w.journal.settle } : World α).newGroups
            candidates).1.registry (({ w with journal := w.journal.settle } : World α).newGroups
              candidates).1.pinned
            (({ w with journal := w.journal.settle } : World α).newGroups candidates).2))
  fail : ∀ {w b plan}, P w (.planned b plan) → ∀ told e,
    P (w.leaveGate b told none (.error e)) .idle
  conclude : ∀ {w b plan}, P w (.planned b plan) → ∀ listings members,
    P (w.concludeCycle b plan listings members) .idle
  noted : ∀ {w s}, P w s → P w.noteRefresh s

theorem running_absorb (r : Refresher) (now : Nat) : (r.absorb now).running = r.running := by
  unfold Refresher.absorb
  split
  · rfl
  · split_ifs
    · rfl
    · rfl

theorem running_afterCycle (r : Refresher) (result : Except Error Unit) :
    (r.afterCycle result).running = none := by
  rcases result with e | ⟨⟩
  · rfl
  · rfl

namespace Tended

variable {P : World α → Stage → Prop} {site : Site} {t : Ticket} {w : World α}
  (h : Tended site t P)

include h

theorem pollIndexing {b : Brief} {plan : Plan} (hw : P w (.planned b plan))
    (listings : List Listing) :
    P (w.pollIndexing site b plan listings).1 (w.pollIndexing site b plan listings).2.stage := by
  have hlistings := (h.asking _).pollListings w site plan.groups listings hw
  unfold World.pollIndexing
  rcases hpoll : w.pollListings site plan.groups listings with ⟨w', listings'⟩
  rw [hpoll] at hlistings
  dsimp only
  cases listings'.findSome? Listing.failure? with
  | some e => exact h.fail hlistings _ e
  | none =>
    cases gathered? plan.groups listings' with
    | none => exact hlistings
    | some members => exact h.conclude hlistings listings' members

theorem planCycle (cycle : Cycle) (listed : Except Error (List ScaleSet)) (hw : P w .listing) :
    P (w.planCycle site t cycle listed).1 (w.planCycle site t cycle listed).2.stage := by
  unfold World.planCycle
  dsimp only
  cases hcandidates : listed.bind fun l ↦ cycle.candidates site l with
  | error e => exact h.fault cycle listed hcandidates hw
  | ok candidates => exact h.pollIndexing (h.plan cycle listed hcandidates hw) _

theorem pollListing (cycle : Cycle) (i : Inquiry) (hw : P w .listing) :
    P (w.pollListing site t cycle i).1 (w.pollListing site t cycle i).2.stage := by
  have hasked := (h.asking _).pollInquiry w site .scaleSets i hw
  unfold World.pollListing
  rcases hpoll : w.pollInquiry site .scaleSets i with ⟨w', i' | listed⟩
  · rw [hpoll] at hasked
    exact hasked
  · rw [hpoll] at hasked
    exact h.planCycle cycle listed hasked

theorem pollCycle (cycle : Cycle) {phase : CyclePhase} (hw : P w phase.stage) :
    P (w.pollCycle site t cycle phase).1 (w.pollCycle site t cycle phase).2.stage := by
  cases phase with
  | queued =>
    dsimp only [World.pollCycle]
    split_ifs
    · exact h.pollListing cycle _ (h.take hw)
    · exact h.planCycle cycle _ (h.take hw)
    · exact hw
  | listing i => exact h.pollListing cycle i hw
  | indexing b plan listings => exact h.pollIndexing hw listings

theorem startCycle (cycle : Cycle) (hw : P w .idle) :
    P (w.startCycle site t cycle).1 (w.startCycle site t cycle).2.stage := by
  have hqueued : P (w.joinGate t) (CyclePhase.stage .queued) := h.join hw
  exact h.pollCycle cycle hqueued

theorem note {r : World α × Progress CyclePhase (Except Error Unit)} (hr : P r.1 r.2.stage) :
    P (World.noted r).1 (World.noted r).2.stage := by
  rcases r with ⟨w', phase | e | ⟨⟩⟩
  · exact hr
  · exact hr
  · exact h.noted hr

theorem startRefresh (hw : P w .idle) :
    P (w.startRefresh site t).1 (w.startRefresh site t).2.stage :=
  h.note (h.startCycle .auto hw)

/-! ### Refreshers -/

theorem drain (rounds : Nat) {r : Refresher} (hw : P w r.stage) :
    P (Refresher.drain site t rounds w r).1 (Refresher.drain site t rounds w r).2.stage := by
  induction rounds generalizing w r with
  | zero => exact hw
  | succ rounds ih =>
    unfold Refresher.drain
    split_ifs with hover
    · exact hw
    · have hidle : r.running = none := by
        cases hrunning : r.running with
        | none => rfl
        | some phase => exact absurd (by rw [hrunning]; rfl) hover
      unfold Refresher.stage at hw
      rw [hidle] at hw
      have hstart := h.startRefresh hw
      dsimp only
      rcases hbegun : w.startRefresh site t with ⟨w', phase | result⟩
      · rw [hbegun] at hstart
        exact hstart
      · rw [hbegun] at hstart
        refine ih ?_
        unfold Refresher.stage
        rw [running_afterCycle]
        exact hstart

theorem pollRefresher {r : Refresher} (hw : P w r.stage) :
    P (r.poll w site t).1 (r.poll w site t).2.stage := by
  unfold Refresher.stage at hw
  rw [← running_absorb r w.now] at hw
  unfold Refresher.poll
  dsimp only
  cases hrunning : (r.absorb w.now).running with
  | none => exact h.drain _ hw
  | some phase =>
    rw [hrunning] at hw
    have hpoll : P (w.pollRefresh site t phase).1 (w.pollRefresh site t phase).2.stage :=
      h.note (h.pollCycle .auto hw)
    dsimp only
    rcases hrefresh : w.pollRefresh site t phase with ⟨w', phase' | result⟩
    · rw [hrefresh] at hpoll
      exact hpoll
    · rw [hrefresh] at hpoll
      refine h.drain _ ?_
      unfold Refresher.stage
      rw [running_afterCycle]
      exact hpoll

/-! ### Activities and operations -/

omit [Balance α] h in
theorem wrapIdle {σ ρ : Type} {state : σ → Activity} (hstate : ∀ s, (state s).stage = .idle)
    {result : ρ → Outcome} {r : World α × Progress σ ρ} (hr : P r.1 .idle) :
    P (World.wrap state result r).1 (Activity.stageAfter (World.wrap state result r).2) := by
  rcases r with ⟨w', s | x⟩
  · show P w' (state s).stage
    rw [hstate]
    exact hr
  · exact hr

omit [Balance α] h in
theorem wrapCycle (errand : Errand) {r : World α × Progress CyclePhase (Except Error Unit)}
    (hr : P r.1 r.2.stage) :
    P (World.wrapCycle errand r).1 (Activity.stageAfter (World.wrapCycle errand r).2) := by
  rcases r with ⟨w', phase | result⟩
  · exact hr
  · exact hr

theorem resolveWith (wanted : Wanted)
    {r : World α × Progress Inquiry (Except Error (List ScaleSet))} (hr : P r.1 .idle) :
    P (World.resolveWith wanted r).1 (Activity.stageAfter (World.resolveWith wanted r).2) := by
  rcases r with ⟨w', i | listed⟩
  · exact hr
  · dsimp only [World.resolveWith]
    unfold World.resolve
    cases listed.bind fun l ↦ wanted.candidates l with
    | error e => exact hr
    | ok candidates => exact (h.asking _).newGroups w' candidates hr

theorem startResolving (wanted : Wanted) (hw : P w .idle) :
    P (w.startResolving site wanted).1 (Activity.stageAfter (w.startResolving site wanted).2) := by
  unfold World.startResolving
  split_ifs
  · exact hw
  · exact h.resolveWith wanted ((h.asking _).pollInquiry w site .scaleSets _ hw)

theorem afterCycle (errand : Errand) {r : World α × Progress CyclePhase (Except Error Unit)}
    (hr : P r.1 r.2.stage) :
    P (World.afterCycle site t errand r).1
      (Activity.stageAfter (World.afterCycle site t errand r).2) := by
  cases errand with
  | fetch cycle => exact wrapCycle _ hr
  | refresh => exact wrapCycle _ (h.note hr)
  | create =>
    rcases r with ⟨w', phase | e | ⟨⟩⟩
    · exact hr
    · exact hr
    · exact wrapCycle .refresh (h.startRefresh hr)

theorem startErrand (errand : Errand) (hw : P w .idle) :
    P (w.startErrand site t errand).1 (Activity.stageAfter (w.startErrand site t errand).2) :=
  h.afterCycle errand (h.startCycle _ hw)

/-- What is kept is so by a poll of an activity, if it is by one of a request for a size. -/
theorem pollActivity {a : Activity} (hw : P w a.stage)
    (hsize : ∀ g phase, a = .sizing g phase → P (w.pollSize site g t phase).1 .idle) :
    P (w.pollActivity site t a).1 (Activity.stageAfter (w.pollActivity site t a).2) := by
  cases a with
  | pausing wake =>
    dsimp only [World.pollActivity]
    split_ifs
    · exact hw
    · exact hw
  | calling rg q phase => exact wrapIdle (fun _ ↦ rfl) ((h.asking _).pollCall w rg q phase hw)
  | inquiring q i => exact wrapIdle (fun _ ↦ rfl) ((h.asking _).pollInquiry w site q i hw)
  | resolving wanted i =>
    exact h.resolveWith wanted ((h.asking _).pollInquiry w site .scaleSets i hw)
  | sizing g phase => exact wrapIdle (fun _ ↦ rfl) (hsize g phase rfl)
  | discovering errand phase => exact h.afterCycle errand (h.pollCycle _ hw)
  | refreshing r =>
    have hpoll := h.pollRefresher hw
    dsimp only [World.pollActivity]
    unfold World.wrapRefresher
    split_ifs with hover
    · have hidle : (r.poll w site t).2.running = none :=
        Option.isNone_iff_eq_none.mp (Bool.and_eq_true_iff.mp hover).2
      unfold Refresher.stage at hpoll
      rw [hidle] at hpoll
      exact hpoll
    · exact hpoll

theorem startOperation {o : Operation} (hw : P w .idle)
    (hsize : ∀ g, o = .size g → P (w.startSize site g t).1 .idle) :
    P (w.startOperation site t o).1 (Activity.stageAfter (w.startOperation site t o).2) := by
  cases o with
  | pause millis =>
    have hpausing : P w (Activity.pausing (w.now + millis)).stage := hw
    exact h.pollActivity hpausing fun g phase ha ↦ nomatch ha
  | call rg q => exact wrapIdle (fun _ ↦ rfl) ((h.asking _).pollCall w rg q .fresh hw)
  | inquire q => exact wrapIdle (fun _ ↦ rfl) ((h.asking _).pollInquiry w site q _ hw)
  | resolveExplicit specs => exact h.startResolving _ hw
  | resolveSelectors selectors => exact h.startResolving _ hw
  | preview labels =>
    dsimp only [World.startOperation]
    cases Selector.parseAll labels with
    | error e => exact hw
    | ok selectors => exact h.startResolving _ hw
  | size g => exact wrapIdle (fun _ ↦ rfl) (hsize g rfl)
  | fetchExplicit texts =>
    dsimp only [World.startOperation]
    cases ExplicitSpec.parseAll texts with
    | error e => exact hw
    | ok specs => exact h.startErrand _ hw
  | refresh =>
    dsimp only [World.startOperation]
    split_ifs
    · exact h.startErrand _ hw
    · exact hw
  | fetchAuto => exact h.startErrand _ hw
  | forceRefresh => exact h.startErrand _ hw
  | create => exact h.startErrand _ hw
  | refreshEvery millis => exact hw

section

variable (hcell : ∀ {w} g f, P w .idle → P (w.changeCell g f) .idle)

include hcell

/-- What is kept when sizes are written down, too, is kept by every poll. -/
theorem poll {a : Activity} (hw : P w a.stage) :
    P (w.pollActivity site t a).1 (Activity.stageAfter (w.pollActivity site t a).2) := by
  refine h.pollActivity hw ?_
  rintro g phase rfl
  exact (h.asking _).pollSize w site t (fun _ f ↦ hcell g f) phase hw

theorem begin (o : Operation) (hw : P w .idle) :
    P (w.startOperation site t o).1 (Activity.stageAfter (w.startOperation site t o).2) :=
  h.startOperation hw fun g _ ↦ (h.asking _).startSize w site t (fun _ f ↦ hcell g f) hw

end

end Tended

omit [Balance α] in
theorem world_settle (f : Fleet α) (t : Ticket) (r : Step α) : (f.settle t r).world = r.1 := by
  rcases r with ⟨w, a | o⟩
  · rfl
  · rfl

theorem world_begin (f : Fleet α) (o : Operation) :
    (f.begin o).world = (f.world.startOperation f.site f.nextTicket o).1 := by
  unfold Fleet.begin
  rcases f.world.startOperation f.site f.nextTicket o with ⟨w, a | x⟩
  · rfl
  · rfl

/-! ### Relations between worlds -/

/-- A relation that everything an activity does bears, but for writing down sizes. -/
structure Borne (R : World α → World α → Prop) : Prop extends Asking R where
  books : ∀ (w : World α) registry pinned refreshedAt gate journal,
    R w { w with registry, pinned, refreshedAt, gate, journal }

namespace Borne

variable (h : Borne R) (f : Fleet α) (w : World α)

include h

theorem tended (site : Site) (t : Ticket) : Tended site t fun w' _ ↦ R w w' where
  asking _ := ⟨fun _ hw ↦ hw, fun hfirst hsecond hw ↦ hsecond (hfirst hw),
    fun w' rg q hw ↦ h.trans hw (h.attempt w' rg q),
    fun w' c period hw ↦ h.trans hw (h.newGroup w' c period)⟩
  join hw := h.trans hw (h.books _ ..)
  take hw := h.trans hw (h.books _ ..)
  fault _ _ _ _ hw := h.trans hw (h.books _ ..)
  plan _ _ _ _ hw := h.trans (h.trans hw (h.books _ ..)) (h.newGroups _ _)
  fail hw _ _ := h.trans hw (h.books _ ..)
  conclude hw _ _ := h.trans hw (h.books _ ..)
  noted hw := h.trans hw (h.books _ ..)

theorem begin {o : Operation}
    (hsize : ∀ g, o = .size g → R f.world (f.world.startSize f.site g f.nextTicket).1) :
    R f.world (f.begin o).world := by
  rw [world_begin]
  exact (h.tended f.world f.site f.nextTicket).startOperation (h.refl f.world) hsize

theorem poll {t : Ticket}
    (hsize : ∀ g phase, f.activity? t = some (.sizing g phase) →
      R f.world (f.world.pollSize f.site g t phase).1) :
    R f.world (f.poll t).world := by
  unfold Fleet.poll
  cases hactivity : f.activity? t with
  | none => exact h.refl f.world
  | some a =>
    dsimp only
    rw [world_settle]
    refine (h.tended f.world f.site t).pollActivity (a := a) (h.refl f.world) ?_
    rintro g phase rfl
    exact hsize g phase hactivity

theorem stop (t : Ticket) : R f.world (f.stop t).world := by
  unfold Fleet.stop
  split
  · rw [world_settle]
    exact h.refl f.world
  · exact h.refl f.world

theorem register (c : Candidate) : R w (w.register c).1 :=
  h.trans (h.newGroup w c defaultSizePeriod) (h.books _ ..)

theorem unregister (name : String) : R w (w.unregister name).1 :=
  h.books w ..

theorem replace (candidates : List Candidate) (instances : Table String) :
    R w (w.replace candidates instances).1 :=
  h.trans (h.newGroups w candidates) (h.books _ ..)

/-- An event bears what the writing down of sizes, changes from outside and the passing
of time do. -/
theorem step (hchange : ∀ (w : World α) g change, R w (w.changeCell g change))
    (houtside : ∀ (w : World α) cloud line files, R w { w with cloud, line, files }) {e : Event}
    (helapse : ∀ millis, e = .elapse millis → R f.world (f.elapse millis).world) :
    R f.world (f.step e).world := by
  cases e with
  | begin o =>
    exact h.begin f fun g _ ↦ h.startSize f.world f.site f.nextTicket fun w ↦ hchange w g
  | poll t =>
    exact h.poll f fun g phase _ ↦ h.pollSize f.world f.site t (fun w ↦ hchange w g) phase
  | elapse millis => exact helapse millis rfl
  | stop t => exact h.stop f t
  | account change =>
    show R f.world (f.world.changeAccount change)
    unfold World.changeAccount
    split
    · exact houtside f.world ..
    · exact h.refl f.world
  | line line => exact houtside f.world ..
  | files files => exact houtside f.world ..
  | register c => exact h.register f.world c
  | unregister name => exact h.unregister f.world name
  | replace candidates instances => exact h.replace f.world candidates instances

end Borne

end NodeFleet.Fleet
