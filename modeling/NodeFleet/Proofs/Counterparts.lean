import NodeFleet.Proofs.Steps
/-!
Activities and their counterparts. What an activity does does not depend on the names under which
activities stand in the lines for sizes, nor, if it comes to no cycle, on gate and journal. A cycle
goes the same way whichever activity carries it on: two that are each alone at the gate of worlds
that differ only so take the same steps, come to the same result, and leave such worlds behind.
-/

set_option autoImplicit false
set_option relaxedAutoImplicit false

namespace NodeFleet.Fleet

open NodeFleet.Discovery NodeFleet.Quota

variable {α : Type}

/-- The cell with other names in its line. -/
def SizeCell.under (name : Ticket → Ticket) (c : SizeCell) : SizeCell :=
  { c with line := c.line.map name }

/-- The world with other names in the lines for sizes, another gate and another journal. -/
def World.under (w : World α) (name : Ticket → Ticket) (gate : List Ticket) (journal : Journal) :
    World α :=
  { w with cells := w.cells.map (SizeCell.under name), gate, journal }

/-- Worlds that differ at most in the names in the lines for sizes, in gate and journal. -/
def World.Matches (name : Ticket → Ticket) (w w' : World α) : Prop :=
  ∃ gate journal, w' = w.under name gate journal

/-- A phase of a cycle as another activity carries it on. -/
def CyclePhase.handed (t : Ticket) : CyclePhase → CyclePhase
  | indexing b plan listings => indexing { b with ticket := t } plan listings
  | phase => phase

/-- Whether a phase is one of the activity. -/
def CyclePhase.Of (t : Ticket) : CyclePhase → Prop
  | indexing b _ _ => b.ticket = t
  | _ => True

/-- What a cycle and its counterpart come to, each of which is alone at its gate. -/
inductive Abreast (name : Ticket → Ticket) (t t' : Ticket) :
    World α × Progress CyclePhase (Except Error Unit) →
      World α × Progress CyclePhase (Except Error Unit) → Prop
  | waiting {w w' : World α} {phase : CyclePhase} : w.Matches name w' → w.gate = [t] →
      w'.gate = [t'] → phase.Of t →
        Abreast name t t' (w, .waiting phase) (w', .waiting (phase.handed t'))
  | finished {w w' : World α} {result : Except Error Unit} : w.Matches name w' → w.gate = [] →
      w'.gate = [] → Abreast name t t' (w, .finished result) (w', .finished result)

namespace World

variable (w : World α) (site : Site) (name : Ticket → Ticket) (gate : List Ticket)
  (journal : Journal)

/-! ### Lines -/

theorem cell_under (g : NodeGroup) :
    (w.under name gate journal).cell g = (w.cell g).under name := by
  show ((w.cells.map (SizeCell.under name))[g.serial]?).getD .empty = _
  rw [Array.getElem?_map]
  unfold cell
  cases w.cells[g.serial]? <;> rfl

theorem knownSize?_under (g : NodeGroup) :
    (w.under name gate journal).knownSize? g = w.knownSize? g := by
  unfold knownSize?
  rw [cell_under]
  rfl

theorem changeCell_under (g : NodeGroup) {f f' : SizeCell → SizeCell}
    (hf : ∀ c, f' (c.under name) = (f c).under name) :
    (w.under name gate journal).changeCell g f' = (w.changeCell g f).under name gate journal := by
  have hcells : (w.cells.map (SizeCell.under name)).modify g.serial f' =
      (w.cells.modify g.serial f).map (SizeCell.under name) := by
    refine Array.ext_getElem? fun i ↦ ?_
    rw [Array.getElem?_modify, Array.getElem?_map, Array.getElem?_map, Array.getElem?_modify]
    split_ifs
    · cases w.cells[i]? with
      | none => rfl
      | some c => exact congrArg some (hf c)
    · rfl
  show ({ w with
    cells := (w.cells.map (SizeCell.under name)).modify g.serial f', gate, journal } : World α) = _
  rw [hcells]
  rfl

theorem joinLine_under (g : NodeGroup) (t : Ticket) :
    (w.under name gate journal).joinLine g (name t) =
      (w.joinLine g t).under name gate journal := by
  refine w.changeCell_under name gate journal g fun c ↦ ?_
  unfold SizeCell.under
  rw [List.map_append]
  rfl

section

variable {name} (hname : Function.Injective name)

include hname

theorem leaveLine_under (g : NodeGroup) (t : Ticket) :
    (w.under name gate journal).leaveLine g (name t) =
      (w.leaveLine g t).under name gate journal := by
  refine w.changeCell_under name gate journal g fun c ↦ ?_
  have hkept : ((· ≠ name t) ∘ name : Ticket → Bool) = (· ≠ t) := by
    funext t'
    simp [hname.eq_iff]
  unfold SizeCell.under
  dsimp only
  rw [List.filter_map, hkept]

theorem hasTurn_under (g : NodeGroup) (t : Ticket) :
    (w.under name gate journal).hasTurn g (name t) = w.hasTurn g t := by
  unfold hasTurn
  rw [cell_under]
  unfold SizeCell.under
  dsimp only
  rw [List.head?_map]
  cases (w.cell g).line.head? with
  | none => rfl
  | some t' => simp [hname.eq_iff]

theorem settleSize_under (g : NodeGroup) (t : Ticket) (answer : Except Error ScaleSet) :
    (w.under name gate journal).settleSize g (name t) answer =
      ((w.settleSize g t answer).1.under name gate journal, (w.settleSize g t answer).2) := by
  cases answer with
  | error e =>
    dsimp only [settleSize]
    rw [w.leaveLine_under gate journal hname]
  | ok s =>
    have hrecorded : (w.under name gate journal).recordSize g s.capacity =
        (w.recordSize g s.capacity).under name gate journal :=
      w.changeCell_under name gate journal g fun _ ↦ rfl
    dsimp only [settleSize]
    rw [hrecorded, leaveLine_under _ gate journal hname]

end

/-! ### Questions -/

theorem ask_under (q : Query) :
    (w.under name gate journal).ask q = ((w.ask q).1.under name gate journal, (w.ask q).2) := by
  have hcloud : (w.under name gate journal).cloud = w.cloud := rfl
  unfold ask
  rw [hcloud]
  cases w.cloud <;> rfl

theorem collect_under (resourceGroup : String) (q : Query) (due : Nat) :
    (w.under name gate journal).collect resourceGroup q due =
      ((w.collect resourceGroup q due).1.under name gate journal,
        (w.collect resourceGroup q due).2) := by
  unfold collect
  show (if due ≤ w.now then _ else _) = _
  split_ifs <;> rfl

theorem newGroup_under (c : Candidate) (period : Duration) :
    (w.under name gate journal).newGroup c period =
      ((w.newGroup c period).1.under name gate journal, (w.newGroup c period).2) := by
  have hcells : (w.cells.map (SizeCell.under name)).push .empty =
      (w.cells.push .empty).map (SizeCell.under name) :=
    (Array.map_push (f := SizeCell.under name) (x := .empty)).symm
  have hserial : (w.cells.map (SizeCell.under name)).size = w.cells.size := Array.size_map
  show (({ w with
      cells := (w.cells.map (SizeCell.under name)).push .empty, gate, journal } : World α),
    (⟨(w.cells.map (SizeCell.under name)).size, c.name, c.bounds, period⟩ : NodeGroup)) = _
  rw [hcells, hserial]
  rfl

theorem newGroups_under (candidates : List Candidate) :
    (w.under name gate journal).newGroups candidates =
      ((w.newGroups candidates).1.under name gate journal, (w.newGroups candidates).2) := by
  induction candidates generalizing w with
  | nil => rfl
  | cons c rest ih =>
    unfold newGroups
    rw [newGroup_under]
    dsimp only
    rw [ih]

variable [Balance α]

theorem draw_under (q : Query) :
    (w.under name gate journal).draw q = ((w.draw q).1.under name gate journal, (w.draw q).2) := by
  have hquotas : (w.under name gate journal).quotas = w.quotas := rfl
  unfold draw
  rw [hquotas]
  cases w.quotas <;> rfl

theorem attempt_under (resourceGroup : String) (q : Query) :
    (w.under name gate journal).attempt resourceGroup q =
      ((w.attempt resourceGroup q).1.under name gate journal, (w.attempt resourceGroup q).2) := by
  unfold attempt
  rw [draw_under]
  rcases w.draw q with ⟨w', _ | wake⟩
  · dsimp only
    rw [ask_under]
    exact collect_under _ name gate journal resourceGroup q _
  · rfl

theorem pollCall_under (resourceGroup : String) (q : Query) (phase : CallPhase) :
    (w.under name gate journal).pollCall resourceGroup q phase =
      ((w.pollCall resourceGroup q phase).1.under name gate journal,
        (w.pollCall resourceGroup q phase).2) := by
  cases phase with
  | fresh => exact w.attempt_under name gate journal resourceGroup q
  | throttled wake =>
    dsimp only [pollCall]
    show (if wake ≤ w.now then _ else _) = _
    split_ifs
    · exact w.attempt_under name gate journal resourceGroup q
    · rfl
  | underWay due => exact w.collect_under name gate journal resourceGroup q due

theorem pollInquiry_under (q : Query) (i : Inquiry) :
    (w.under name gate journal).pollInquiry site q i =
      ((w.pollInquiry site q i).1.under name gate journal, (w.pollInquiry site q i).2) := by
  unfold pollInquiry
  rw [pollCall_under]
  rcases w.pollCall site.resourceGroup q i.phase with ⟨w', phase | e | answer⟩
  · show (if i.expires ≤ w'.now then _ else _) = _
    dsimp only
    split_ifs <;> rfl
  · rfl
  · rfl

theorem pollMembers_under (g : NodeGroup) (l : Listing) :
    (w.under name gate journal).pollMembers site g l =
      ((w.pollMembers site g l).1.under name gate journal, (w.pollMembers site g l).2) := by
  cases l with
  | arrived answer => rfl
  | waiting i =>
    dsimp only [pollMembers]
    rw [pollInquiry_under]
    rcases w.pollInquiry site (.members g.name) i with ⟨w', i' | answer⟩ <;> rfl

theorem pollListings_under (groups : List NodeGroup) (listings : List Listing) :
    (w.under name gate journal).pollListings site groups listings =
      ((w.pollListings site groups listings).1.under name gate journal,
        (w.pollListings site groups listings).2) := by
  induction groups generalizing w listings with
  | nil => rfl
  | cons g groups ih =>
    cases listings with
    | nil => rfl
    | cons l listings =>
      unfold pollListings
      rw [pollMembers_under]
      rcases w.pollMembers site g l with ⟨w', l'⟩
      dsimp only
      split_ifs
      · rfl
      · rw [ih]

/-! ### Sizes -/

section

variable {name} (hname : Function.Injective name)

include hname

theorem pollAsking_under (g : NodeGroup) (t : Ticket) (i : Inquiry) :
    (w.under name gate journal).pollAsking site g (name t) i =
      ((w.pollAsking site g t i).1.under name gate journal, (w.pollAsking site g t i).2) := by
  unfold pollAsking
  rw [pollInquiry_under]
  rcases w.pollInquiry site (.scaleSet g.name) i with ⟨w', i' | answer⟩
  · rfl
  · dsimp only
    rw [settleSize_under _ gate journal hname]

theorem pollSize_under (g : NodeGroup) (t : Ticket) (phase : SizePhase) :
    (w.under name gate journal).pollSize site g (name t) phase =
      ((w.pollSize site g t phase).1.under name gate journal, (w.pollSize site g t phase).2) := by
  cases phase with
  | asking i => exact w.pollAsking_under site gate journal hname g t i
  | queued =>
    dsimp only [pollSize]
    rw [hasTurn_under _ gate journal hname, knownSize?_under]
    split_ifs
    · cases w.knownSize? g with
      | some size =>
        dsimp only
        rw [leaveLine_under _ gate journal hname]
      | none => exact w.pollAsking_under site gate journal hname g t _
    · rfl

theorem startSize_under (g : NodeGroup) (t : Ticket) :
    (w.under name gate journal).startSize site g (name t) =
      ((w.startSize site g t).1.under name gate journal, (w.startSize site g t).2) := by
  unfold startSize
  rw [joinLine_under]
  exact pollSize_under _ site gate journal hname g t .queued

end

end World

/-! ### Activities without a cycle -/

/-- What a step comes to that is part of no cycle, and its counterpart. -/
structure Namesake (site : Site) (name : Ticket → Ticket) (gate : List Ticket) (journal : Journal)
    (w : World α) (r r' : Step α) : Prop where
  same : r' = (r.1.under name gate journal, r.2)
  asked : World.Inquired w r.1
  quiet : ∀ a, r.2 = .waiting a → a.cycles site = []

section

variable {w : World α} {site : Site} {name : Ticket → Ticket} {gate : List Ticket}
  {journal : Journal}

theorem namesake_finished (w : World α) (outcome : Outcome) :
    Namesake site name gate journal w (w, .finished outcome)
      (w.under name gate journal, .finished outcome) :=
  ⟨rfl, .refl w, fun a ha ↦ by cases ha⟩

theorem namesake_wrap {σ ρ : Type} {state : σ → Activity}
    (hquiet : ∀ s, (state s).cycles site = []) (result : ρ → Outcome)
    {r r' : World α × Progress σ ρ} (hsame : r' = (r.1.under name gate journal, r.2))
    (hasked : World.Inquired w r.1) :
    Namesake site name gate journal w (World.wrap state result r) (World.wrap state result r') := by
  obtain rfl := hsame
  rcases r with ⟨w', s | x⟩
  · refine ⟨rfl, hasked, fun a ha ↦ ?_⟩
    obtain rfl := Progress.waiting.inj ha
    exact hquiet s
  · exact ⟨rfl, hasked, fun a ha ↦ by cases ha⟩

theorem namesake_resolveWith (wanted : Wanted)
    {r r' : World α × Progress Inquiry (Except Error (List ScaleSet))}
    (hsame : r' = (r.1.under name gate journal, r.2)) (hasked : World.Inquired w r.1) :
    Namesake site name gate journal w (World.resolveWith wanted r)
      (World.resolveWith wanted r') := by
  obtain rfl := hsame
  rcases r with ⟨w', i | listed⟩
  · refine ⟨rfl, hasked, fun a ha ↦ ?_⟩
    obtain rfl := Progress.waiting.inj ha
    rfl
  · dsimp only [World.resolveWith, World.resolve]
    cases listed.bind fun l ↦ wanted.candidates l with
    | error e => exact ⟨rfl, hasked, fun a ha ↦ by cases ha⟩
    | ok candidates =>
      obtain ⟨cells, hnew⟩ := w'.inquired_newGroups candidates
      dsimp only
      rw [World.newGroups_under]
      refine ⟨rfl, ?_, fun a ha ↦ by cases ha⟩
      rw [hnew]
      exact hasked.trans (w'.inquired_cells cells)

variable [Balance α]

theorem namesake_startResolving (w : World α) (wanted : Wanted) :
    Namesake site name gate journal w (w.startResolving site wanted)
      ((w.under name gate journal).startResolving site wanted) := by
  unfold World.startResolving
  split_ifs
  · exact namesake_finished w _
  · exact namesake_resolveWith wanted (w.pollInquiry_under site name gate journal .scaleSets _)
      (World.asking_inquired.pollInquiry w site .scaleSets _)

variable (hname : Function.Injective name)

include hname

/-- An activity that comes to no cycle does the same under any names and at any gate. -/
theorem namesake_pollActivity (w : World α) (t : Ticket) {a : Activity}
    (ha : a.cycles site = []) :
    Namesake site name gate journal w (w.pollActivity site t a)
      ((w.under name gate journal).pollActivity site (name t) a) := by
  cases a with
  | pausing wake =>
    dsimp only [World.pollActivity]
    rw [show (w.under name gate journal).now = w.now from rfl]
    split_ifs
    · exact namesake_finished w _
    · refine ⟨rfl, .refl w, fun a ha ↦ ?_⟩
      obtain rfl := Progress.waiting.inj ha
      rfl
  | calling resourceGroup q phase =>
    exact namesake_wrap (fun _ ↦ rfl) _ (w.pollCall_under name gate journal resourceGroup q phase)
      (World.asking_inquired.pollCall w resourceGroup q phase)
  | inquiring q i =>
    exact namesake_wrap (fun _ ↦ rfl) _ (w.pollInquiry_under site name gate journal q i)
      (World.asking_inquired.pollInquiry w site q i)
  | resolving wanted i =>
    exact namesake_resolveWith wanted (w.pollInquiry_under site name gate journal .scaleSets i)
      (World.asking_inquired.pollInquiry w site .scaleSets i)
  | sizing g phase =>
    exact namesake_wrap (fun _ ↦ rfl) _ (w.pollSize_under site gate journal hname g t phase)
      (World.asking_inquired.pollSize w site t (fun _ _ ↦ World.inquired_cells _ _) phase)
  | discovering errand phase => cases errand <;> cases ha
  | refreshing r => cases ha

/-- So does an operation that begins. -/
theorem namesake_startOperation (w : World α) (t : Ticket) {o : Operation}
    (ho : o.cycles site = []) :
    Namesake site name gate journal w (w.startOperation site t o)
      ((w.under name gate journal).startOperation site (name t) o) := by
  cases o with
  | pause millis =>
    have hpausing : (Activity.pausing (w.now + millis)).cycles site = [] := rfl
    exact namesake_pollActivity hname w t hpausing
  | call resourceGroup q =>
    exact namesake_wrap (fun _ ↦ rfl) _ (w.pollCall_under name gate journal resourceGroup q .fresh)
      (World.asking_inquired.pollCall w resourceGroup q .fresh)
  | inquire q =>
    exact namesake_wrap (fun _ ↦ rfl) _ (w.pollInquiry_under site name gate journal q _)
      (World.asking_inquired.pollInquiry w site q _)
  | resolveExplicit specs => exact namesake_startResolving w _
  | resolveSelectors selectors => exact namesake_startResolving w _
  | preview labels =>
    dsimp only [World.startOperation]
    cases Selector.parseAll labels with
    | error e => exact namesake_finished w _
    | ok selectors => exact namesake_startResolving w _
  | size g =>
    exact namesake_wrap (fun _ ↦ rfl) _ (w.startSize_under site gate journal hname g t)
      (World.asking_inquired.startSize w site t fun _ _ ↦ World.inquired_cells _ _)
  | fetchExplicit texts =>
    dsimp only [World.startOperation]
    dsimp only [Operation.cycles] at ho
    cases hparse : ExplicitSpec.parseAll texts with
    | error e => exact namesake_finished w _
    | ok specs =>
      rw [hparse] at ho
      cases ho
  | _ => cases ho

end

/-! ### Cycles -/

variable {w : World α} {site : Site} {name : Ticket → Ticket} {t t' : Ticket}
  {journal : Journal}

theorem abreast_leaveGate (hgate : w.gate = [t]) {b : Brief} (hb : b.ticket = t)
    (told : List (String × Except Error (List Member))) (installed : Option Snapshot)
    (result : Except Error Unit) :
    Abreast name t t' (w.leaveGate b told installed result, .finished result)
      ((w.under name [t'] journal).leaveGate { b with ticket := t' } told installed result,
        .finished result) := by
  refine .finished ⟨_, _, rfl⟩ ?_ ?_
  · show w.gate.filter (· ≠ b.ticket) = []
    rw [hgate, hb]
    simp
  · show [t'].filter (· ≠ t') = []
    simp

variable [Balance α]

theorem abreast_pollIndexing (hgate : w.gate = [t]) {b : Brief} (hb : b.ticket = t) (plan : Plan)
    (listings : List Listing) :
    Abreast name t t' (w.pollIndexing site b plan listings)
      ((w.under name [t'] journal).pollIndexing site { b with ticket := t' } plan listings) := by
  have hpolled := (World.asking_inquired.pollListings w site plan.groups listings).gate
  unfold World.pollIndexing
  rw [World.pollListings_under]
  rcases hpoll : w.pollListings site plan.groups listings with ⟨w₁, listings'⟩
  rw [hpoll] at hpolled
  dsimp only at hpolled ⊢
  cases hfailure : listings'.findSome? Listing.failure? with
  | some e => exact abreast_leaveGate (hpolled.trans hgate) hb _ none (.error e)
  | none =>
    cases hgathered : gathered? plan.groups listings' with
    | none => exact .waiting ⟨_, _, rfl⟩ (hpolled.trans hgate) rfl hb
    | some members =>
      have hinstalled : (w₁.install plan (memberIndex members)).gate = [t] := hpolled.trans hgate
      exact abreast_leaveGate hinstalled hb _ _ (.ok ())

theorem abreast_planCycle (hgate : w.gate = [t]) (cycle : Cycle)
    (listed : Except Error (List ScaleSet)) :
    Abreast name t t' (w.planCycle site t cycle listed)
      ((w.under name [t'] journal).planCycle site t' cycle listed) := by
  have hsettled : ({ w with journal := w.journal.settle } : World α).gate = [t] := hgate
  have hsize : (w.under name [t'] journal).cells.size = w.cells.size := Array.size_map
  unfold World.planCycle
  dsimp only
  rw [hsize, show ({ w.under name [t'] journal with
      journal := (w.under name [t'] journal).journal.settle } : World α) =
    ({ w with journal := w.journal.settle } : World α).under name [t'] journal.settle from rfl]
  -- From here on the cycle knows the world only as it is with the journal settled.
  generalize ({ w with journal := w.journal.settle } : World α) = w₀ at hsettled ⊢
  cases hcandidates : listed.bind fun l ↦ cycle.candidates site l with
  | error e =>
    have hticket : (⟨t, cycle, listed, w.cells.size⟩ : Brief).ticket = t := rfl
    exact abreast_leaveGate hsettled hticket [] none (.error e)
  | ok candidates =>
    have hasked := (World.asking_inquired.newGroups w₀ candidates).gate
    dsimp only
    rw [World.newGroups_under]
    rcases hnew : w₀.newGroups candidates with ⟨w₁, resolved⟩
    rw [hnew] at hasked
    exact abreast_pollIndexing (hasked.trans hsettled) rfl _ _

theorem abreast_pollListing (hgate : w.gate = [t]) (cycle : Cycle) (i : Inquiry) :
    Abreast name t t' (w.pollListing site t cycle i)
      ((w.under name [t'] journal).pollListing site t' cycle i) := by
  have hpolled := (World.asking_inquired.pollInquiry w site .scaleSets i).gate
  unfold World.pollListing
  rw [World.pollInquiry_under]
  rcases hpoll : w.pollInquiry site .scaleSets i with ⟨w₁, i' | listed⟩
  · rw [hpoll] at hpolled
    exact .waiting ⟨_, _, rfl⟩ (hpolled.trans hgate) rfl trivial
  · rw [hpoll] at hpolled
    exact abreast_planCycle (hpolled.trans hgate) cycle listed

/-- Cycles that are abreast stay so when both are carried on. -/
theorem abreast_pollCycle (hgate : w.gate = [t]) (cycle : Cycle) {phase : CyclePhase}
    (hphase : phase.Of t) :
    Abreast name t t' (w.pollCycle site t cycle phase)
      ((w.under name [t'] journal).pollCycle site t' cycle (phase.handed t')) := by
  cases phase with
  | queued =>
    have hhas : w.hasGate t = true := by simp [World.hasGate, hgate]
    have hhas' : (w.under name [t'] journal).hasGate t' = true := by
      simp [World.hasGate, World.under]
    dsimp only [World.pollCycle, CyclePhase.handed]
    rw [if_pos hhas, if_pos hhas']
    have hgiven : ({ w with journal := w.journal.giveGate t } : World α).gate = [t] := hgate
    split_ifs
    · exact abreast_pollListing hgiven cycle _
    · exact abreast_planCycle hgiven cycle _
  | listing i => exact abreast_pollListing hgate cycle i
  | indexing b plan listings => exact abreast_pollIndexing hgate hphase plan listings

/-- Cycles that begin on matching worlds at whose gates nobody is are abreast. -/
theorem abreast_startCycle (hgate : w.gate = []) (t t' : Ticket) (cycle : Cycle) :
    Abreast name t t' (w.startCycle site t cycle)
      ((w.under name [] journal).startCycle site t' cycle) := by
  have hjoined : (w.joinGate t).gate = [t] := by
    show w.gate ++ [t] = [t]
    rw [hgate, List.nil_append]
  have hqueued : CyclePhase.queued.Of t := trivial
  exact abreast_pollCycle hjoined cycle hqueued

omit [Balance α] in
theorem Abreast.noted {p p' : World α × Progress CyclePhase (Except Error Unit)}
    (h : Abreast name t t' p p') : Abreast name t t' (World.noted p) (World.noted p') := by
  cases h with
  | waiting hw hgate hgate' hphase => exact .waiting hw hgate hgate' hphase
  | @finished w w' result hw hgate hgate' =>
    obtain ⟨gate, journal, rfl⟩ := hw
    cases result with
    | error e => exact .finished ⟨gate, journal, rfl⟩ hgate hgate'
    | ok _ => exact .finished ⟨gate, journal, rfl⟩ hgate hgate'

end NodeFleet.Fleet
