import NodeFleet.Proofs.Beats
import NodeFleet.Proofs.ListingLines
/-!
Fetches through quotas. A fetch from a cloud that answers at once and without error comes through
quotas to what it comes to without them, only later, if its questions get their tokens in time: the
token of the listing within the timeout, and then, within the timeout again, as many tokens as there
are groups, taken one after the other. Otherwise a question that still waits for its token gives up
at its deadline, and the fetch changes nothing.
-/

set_option autoImplicit false
set_option relaxedAutoImplicit false

namespace NodeFleet.Fleet

open NodeFleet.Discovery NodeFleet.Number NodeFleet.Quota

section

variable {α : Type} [Balance α] {site : Site} {t : Ticket} {cycle : Cycle}
  {r r' r'' : World α × Progress CyclePhase (Except Error Unit)}

theorem Beats.trans (h : Beats site t cycle r r') (h' : Beats site t cycle r' r'') :
    Beats site t cycle r r'' := by
  induction h with
  | refl r => exact h'
  | beat waits later next ih => exact .beat waits later (ih h')

omit [Balance α] in
theorem World.Queried.books {w w' : World α} (h : w.Queried w') : w'.books = w.books := by
  obtain ⟨⟨cloud, quotas, rfl⟩, -, -⟩ := h
  rfl

end

/-- A cycle ends, beat by beat, with a result at some moment, and leaves these books. -/
def Ends (site : Site) (t : Ticket) (cycle : Cycle)
    (r : World Double × Progress CyclePhase (Except Error Unit)) (result : Except Error Unit)
    (books : Books) (due : Nat) : Prop :=
  ∃ w, Beats site t cycle r (w, .finished result) ∧ w.books = books ∧ w.now = due

variable {w w' : World Double} {site : Site} {t : Ticket} {cycle : Cycle}

namespace Ends

variable {r r' : World Double × Progress CyclePhase (Except Error Unit)}
  {result : Except Error Unit} {books : Books} {due : Nat}

theorem of_beats (h : Beats site t cycle r r') (he : Ends site t cycle r' result books due) :
    Ends site t cycle r result books due := by
  obtain ⟨w, hbeats, hleft⟩ := he
  exact ⟨w, h.trans hbeats, hleft⟩

/-- A cycle that waits ends as it does once it is polled at the moment for which it waits. -/
theorem of_waiting {phase : CyclePhase} {wake : Nat} (hwake : phase.wake = some wake)
    (h : w.now < wake)
    (he : Ends site t cycle (({ w with now := wake } : World Double).pollCycle site t cycle phase)
      result books due) : Ends site t cycle (w, .waiting phase) result books due :=
  he.of_beats (.beat hwake h (.refl _))

end Ends

namespace World

/-- A cloud that answers at once and without error, behind limiters that are regular. -/
structure Obliging (w : World Double) (site : Site) : Prop where
  regular : w.Regular
  prompt : w.Prompt
  forthcoming : w.Forthcoming site

theorem Obliging.elapse (h : w.Obliging site) (now : Nat) :
    ({ w with now } : World Double).Obliging site :=
  ⟨regular_of_eq rfl h.regular, h.prompt, h.forthcoming⟩

theorem Obliging.queried (h : w.Obliging site) (hq : w.Queried w') (hr : w'.Regular) :
    w'.Obliging site :=
  ⟨hr, hq.prompt h.prompt, hq.forthcoming h.forthcoming⟩

/-! ### Member listings -/

section

variable {b : Brief} {plan : Plan} {waiting listings : List Listing}
  (h : w.pollListings site plan.groups waiting = (w', listings))

include h

theorem pollIndexing_of_failure {e : Error} (he : listings.findSome? Listing.failure? = some e) :
    w.pollIndexing site b plan waiting =
      (w'.leaveGate b (told plan.groups listings) none (.error e), .finished (.error e)) := by
  unfold pollIndexing
  rw [h]
  dsimp only
  rw [he]

theorem pollIndexing_of_gathered {members : List (String × List Member)}
    (hnone : listings.findSome? Listing.failure? = none)
    (hm : gathered? plan.groups listings = some members) :
    w.pollIndexing site b plan waiting =
      (w'.concludeCycle b plan listings members, .finished (.ok ())) := by
  unfold pollIndexing
  rw [h]
  dsimp only
  rw [hnone, hm]

theorem pollIndexing_of_waiting (hnone : listings.findSome? Listing.failure? = none)
    (hm : gathered? plan.groups listings = none) :
    w.pollIndexing site b plan waiting = (w', .waiting (.indexing b plan listings)) := by
  unfold pollIndexing
  rw [h]
  dsimp only
  rw [hnone, hm]

end

variable {b : Brief} {plan : Plan} {first rest : List NodeGroup} {i : Inquiry}

/-- Listings in line of which one gives up end their cycle. -/
theorem ends_of_failure (t : Ticket) (cycle : Cycle) (b : Brief) (hf : w.Forthcoming site)
    (hsplit : plan.groups = first ++ rest) {listings : List Listing}
    (h : w.pollListings site rest (rest.map fun _ ↦ .waiting i) = (w', listings)) {e : Error}
    (he : listings.findSome? Listing.failure? = some e) :
    Ends site t cycle (w.pollIndexing site b plan (w.inLine site first rest i)) (.error e) w'.books
      w'.now := by
  have hpolled := pollListings_inLine hf first rest i
  rw [← hsplit, h] at hpolled
  have hfailure : (w.answered site first ++ listings).findSome? Listing.failure? = some e := by
    rw [List.findSome?_append, hf.findSome?_answered, he]
    rfl
  rw [pollIndexing_of_failure hpolled hfailure]
  exact ⟨_, .refl _, rfl, rfl⟩

/-- Listings in line that are all answered conclude their cycle. -/
theorem ends_of_served (t : Ticket) (cycle : Cycle) (b : Brief) (hf : w.Forthcoming site)
    (hsplit : plan.groups = first ++ rest)
    (h : w.pollListings site rest (rest.map fun _ ↦ .waiting i) = (w', w.answered site rest))
    {members : List (String × List Member)}
    (hmembers : (w.inventory site).gather plan.groups = .ok members) :
    Ends site t cycle (w.pollIndexing site b plan (w.inLine site first rest i)) (.ok ())
      (w'.books.install plan (memberIndex members)) w'.now := by
  have hpolled := pollListings_inLine hf first rest i
  have hall : w.answered site first ++ w.answered site rest = w.answered site (first ++ rest) :=
    List.map_append.symm
  rw [h, hall, ← hsplit] at hpolled
  obtain ⟨gathered, hgathered, hsame⟩ := hf.gathered_answered plan.groups
  obtain rfl : members = gathered := Except.ok.inj (hmembers.symm.trans hsame)
  rw [pollIndexing_of_gathered hpolled (hf.findSome?_answered _) hgathered]
  exact ⟨_, .refl _, rfl, rfl⟩

/-- Listings in line some of which are refused wait together. -/
theorem pollIndexing_of_refused (hf : w.Forthcoming site) (hsplit : plan.groups = first ++ rest)
    {next left : List NodeGroup} {i' : Inquiry}
    (h : w.pollListings site rest (rest.map fun _ ↦ .waiting i) =
      (w', w.inLine site next left i')) (hrest : rest = next ++ left) (hleft : left ≠ []) :
    w.pollIndexing site b plan (w.inLine site first rest i) =
      (w', .waiting (.indexing b plan (w.inLine site (first ++ next) left i'))) := by
  have hpolled := pollListings_inLine hf first rest i
  rw [h, answered_append_inLine, ← hsplit] at hpolled
  refine pollIndexing_of_waiting hpolled (hf.findSome?_inLine _ _ _) ?_
  rw [hsplit, hrest, ← List.append_assoc]
  exact gathered?_inLine w site (first ++ next) hleft i'

/-- Listings in line that may not ask again before their deadline give up there. -/
theorem ends_of_late (t : Ticket) (cycle : Cycle) (b : Brief) (h : w.Obliging site)
    (hsplit : plan.groups = first ++ rest) (hleft : rest ≠ []) {expires wake : Nat}
    (hnow : w.now < expires) (hlate : expires < wake) :
    ∃ name, Ends site t cycle
      (w, .waiting (.indexing b plan (w.inLine site first rest ⟨expires, .throttled wake⟩)))
      (.error (.deadlineExceeded (.members name) site.inventoryTimeout)) w.books expires := by
  have hwake := w.wake_inLine site b plan first hleft ⟨expires, .throttled wake⟩
  obtain ⟨g, listings, hgiven, hfailure⟩ := pollListings_of_late site
    (w := { w with now := expires }) (i := ⟨expires, .throttled wake⟩) rfl hlate le_rfl hleft
  have hend := ends_of_failure t cycle b (h.elapse expires).forthcoming hsplit hgiven hfailure
  exact ⟨g.name, .of_waiting (hwake.trans (congrArg some (Nat.min_eq_left hlate.le))) hnow hend⟩

/-- The member listings of a plan come to their end when the last of their tokens is taken, or at
their deadline if it is not taken until then. -/
theorem ends_indexing (h : w.Obliging site) (hsplit : plan.groups = first ++ rest)
    (hdue : i.phase.IsDue w.now) (hnow : w.now ≤ i.expires)
    {members : List (String × List Member)}
    (hmembers : (w.inventory site).gather plan.groups = .ok members) :
    (∃ due ≤ i.expires, (w.limiter .virtualMachine).Serves .read w.now rest.length due ∧
      Ends site t cycle (w.pollIndexing site b plan (w.inLine site first rest i)) (.ok ())
        (w.books.install plan (memberIndex members)) due) ∨
    ((∀ due, (w.limiter .virtualMachine).Serves .read w.now rest.length due → i.expires < due) ∧
      ∃ name, Ends site t cycle (w.pollIndexing site b plan (w.inLine site first rest i))
        (.error (.deadlineExceeded (.members name) site.inventoryTimeout)) w.books i.expires) := by
  -- every refusal leaves less time until the deadline
  induction hspan : i.expires - w.now using Nat.strong_induction_on generalizing w first rest i with
  | _ span ih =>
    obtain ⟨hqueried, hattended⟩ :=
      attended_pollListings h.regular h.prompt h.forthcoming hdue rest
    have hregular := borne_regular.toAsking.pollListings w site rest
      (rest.map fun _ ↦ .waiting i) h.regular
    generalize hpolled : w.pollListings site rest (rest.map fun _ ↦ .waiting i) = polled at *
    cases hattended with
    | @served w' serves =>
      have hends := ends_of_served t cycle b h.forthcoming hsplit hpolled hmembers
      rw [hqueried.books, hqueried.now] at hends
      exact Or.inl ⟨w.now, hnow, serves, hends⟩
    | @expired w' listings g late failure serves =>
      have hexpired : w.now = i.expires := le_antisymm hnow late
      have hends := ends_of_failure t cycle b h.forthcoming hsplit hpolled failure
      rw [hqueried.books, hqueried.now, hexpired] at hends
      exact Or.inr ⟨fun due hdue ↦ hexpired ▸ serves due hdue, g.name, hends⟩
    | @waits w' next left wake split hleft early later serves =>
      have hobliging := h.queried hqueried hregular
      have hsplit' : plan.groups = (first ++ next) ++ left := by
        rw [hsplit, split, List.append_assoc]
      have hnow' : w'.now = w.now := hqueried.now
      have hbooks : w'.books = w.books := hqueried.books
      rw [pollIndexing_of_refused h.forthcoming hsplit hpolled split hleft, ← hqueried.inLine,
        ← hbooks]
      by_cases hlast : wake ≤ i.expires
      · have hwake := w'.wake_inLine site b plan (first ++ next) hleft ⟨i.expires, .throttled wake⟩
        have hjump := hwake.trans (congrArg some (Nat.min_eq_right hlast))
        have hnext := ih (i.expires - wake) (by omega) (w := { w' with now := wake })
          (i := ⟨i.expires, .throttled wake⟩) (hobliging.elapse wake) hsplit' le_rfl hlast
          (hqueried.inventory site ▸ hmembers) rfl
        rcases hnext with ⟨due, hin, hserves, hend⟩ | ⟨hlate, name, hend⟩
        · exact Or.inl ⟨due, hin, (serves due).mpr hserves, .of_waiting hjump (hnow' ▸ later) hend⟩
        · exact Or.inr ⟨fun due hdue ↦ hlate due ((serves due).mp hdue), name,
            .of_waiting hjump (hnow' ▸ later) hend⟩
      · -- the deadline passes while all that are left still wait
        have hexpires : i.expires < wake := Nat.lt_of_not_le hlast
        exact Or.inr ⟨fun due hdue ↦ hexpires.trans_le ((serves due).mp hdue).le,
          ends_of_late t cycle b hobliging hsplit' hleft (hnow' ▸ early) hexpires⟩

/-! ### The listing of scale sets -/

/-- A later world in which nothing but the tokens for questions about scale sets has changed. -/
structure Follows (w w' : World Double) : Prop where
  later : w.now ≤ w'.now
  queried : Queried { w with now := w'.now } w'
  regular : w.Regular → w'.Regular
  limiter : w'.limiter .virtualMachine = w.limiter .virtualMachine

namespace Follows

theorem of_drawn (h : Drawn .scaleSets w w') : Follows w w' := by
  refine ⟨h.queried.now.ge, ?_, h.regular, h.others _ (by decide)⟩
  rw [h.queried.now]
  exact h.queried

theorem elapse (h : Follows w w') {now : Nat} (hnow : w'.now ≤ now) :
    Follows w { w' with now } := by
  obtain ⟨hlater, ⟨⟨cloud, quotas, hsame⟩, hanswers, hlag⟩, hregular, hlimiter⟩ := h
  refine ⟨hlater.trans hnow, ⟨⟨cloud, quotas, ?_⟩, hanswers, hlag⟩,
    fun hw ↦ regular_of_eq rfl (hregular hw), hlimiter⟩
  rw [hsame]

theorem trans {w'' : World Double} (h : Follows w w') (h' : Follows w' w'') : Follows w w'' := by
  have helapsed := h.elapse h'.later
  exact ⟨helapsed.later, helapsed.queried.trans h'.queried, fun hw ↦ h'.regular (h.regular hw),
    h'.limiter.trans h.limiter⟩

theorem obliging (h : Follows w w') (hw : w.Obliging site) : w'.Obliging site :=
  (hw.elapse w'.now).queried h.queried (h.regular hw.regular)

end Follows

theorem pollListing_of_finished {listed : Except Error (List ScaleSet)}
    (h : w.pollInquiry site .scaleSets i = (w', .finished listed)) :
    w.pollListing site t cycle i = w'.planCycle site t cycle listed := by
  unfold pollListing
  rw [h]

theorem pollListing_of_waiting {i' : Inquiry}
    (h : w.pollInquiry site .scaleSets i = (w', .waiting i')) :
    w.pollListing site t cycle i = (w', .waiting (.listing i')) := by
  unfold pollListing
  rw [h]

/-- A listing that may not ask again before its deadline gives up there. -/
theorem beats_of_late (site : Site) (t : Ticket) (cycle : Cycle) {expires wake : Nat}
    (hnow : w.now < expires) (hlate : expires < wake) :
    Beats site t cycle (w, .waiting (.listing ⟨expires, .throttled wake⟩))
      (({ w with now := expires } : World Double).planCycle site t cycle
        (.error (.deadlineExceeded .scaleSets site.inventoryTimeout))) := by
  have hwake : (CyclePhase.listing ⟨expires, .throttled wake⟩).wake = some expires :=
    congrArg some (Nat.min_eq_left hlate.le)
  have hgiven := pollInquiry_of_early site .scaleSets (w := { w with now := expires })
    (i := ⟨expires, .throttled wake⟩) rfl hlate
  rw [World.refused, if_pos le_rfl] at hgiven
  have hfailed : ({ w with now := expires } : World Double).pollCycle site t cycle
      (.listing ⟨expires, .throttled wake⟩) =
        ({ w with now := expires } : World Double).planCycle site t cycle
          (.error (.deadlineExceeded .scaleSets site.inventoryTimeout)) :=
    pollListing_of_finished hgiven
  refine .beat hwake hnow ?_
  rw [hfailed]
  exact .refl _

/-- A cycle plans when the token for its listing is taken, or fails at the deadline of the listing
if it is not taken until then. -/
theorem beats_listing (t : Ticket) (cycle : Cycle) (h : w.Obliging site)
    (hdue : i.phase.IsDue w.now) (hnow : w.now ≤ i.expires) :
    (∃ w', Follows w w' ∧ w'.now ≤ i.expires ∧
      (w.limiter .virtualMachineScaleSet).Serves .read w.now 1 w'.now ∧
        Beats site t cycle (w.pollListing site t cycle i)
          (w'.planCycle site t cycle (w.reply site .scaleSets))) ∨
    ((∀ due, (w.limiter .virtualMachineScaleSet).Serves .read w.now 1 due → i.expires < due) ∧
      ∃ w', Follows w w' ∧ Beats site t cycle (w.pollListing site t cycle i)
        (w'.planCycle site t cycle
          (.error (.deadlineExceeded .scaleSets site.inventoryTimeout)))) := by
  induction hspan : i.expires - w.now using Nat.strong_induction_on generalizing w i with
  | _ span ih =>
    obtain ⟨hdrawn, hrequested⟩ := requested_pollInquiry site .scaleSets h.prompt hdue
    generalize hpolled : w.pollInquiry site .scaleSets i = polled at *
    have hfollows : Follows w polled.1 := .of_drawn hdrawn
    have hlater : polled.1.now = w.now := hdrawn.queried.now
    cases hrequested with
    | @served w' taken serves =>
      dsimp only at hlater
      have hserved : (w.limiter .virtualMachineScaleSet).Serves .read w.now 1 w.now :=
        (serves 0 w.now).mpr (.none _ _)
      rw [pollListing_of_finished hpolled]
      exact Or.inl ⟨w', hfollows, hlater ▸ hnow, hlater.symm ▸ hserved, .refl _⟩
    | @expired w' late serves =>
      rw [pollListing_of_finished hpolled]
      exact Or.inr ⟨fun due hdue ↦ late.trans_lt (serves 0 due hdue), w', hfollows, .refl _⟩
    | @waits w' _ wake _ _ early later serves =>
      dsimp only at hlater
      have hwaits : w'.now < wake := hlater ▸ later
      rw [pollListing_of_waiting hpolled]
      by_cases hlast : wake ≤ i.expires
      · have hwake : (CyclePhase.listing ⟨i.expires, .throttled wake⟩).wake = some wake :=
          congrArg some (Nat.min_eq_right hlast)
        have hreply : ({ w' with now := wake } : World Double).reply site .scaleSets =
            w.reply site .scaleSets := hdrawn.queried.reply site .scaleSets
        have hnext := ih (i.expires - wake) (by omega) (w := { w' with now := wake })
          (i := ⟨i.expires, .throttled wake⟩)
          ((hfollows.elapse hwaits.le).obliging h) le_rfl hlast rfl
        rw [hreply] at hnext
        rcases hnext with ⟨last, hthen, hin, hserved, hbeats⟩ | ⟨hnever, last, hthen, hbeats⟩
        · exact Or.inl ⟨last, (hfollows.elapse hwaits.le).trans hthen, hin,
            (serves 0 _).mpr hserved, .beat hwake hwaits hbeats⟩
        · exact Or.inr ⟨fun due hdue ↦ hnever due ((serves 0 due).mp hdue), last,
            (hfollows.elapse hwaits.le).trans hthen, .beat hwake hwaits hbeats⟩
      · -- the deadline passes first
        have hexpires : i.expires < wake := Nat.lt_of_not_le hlast
        have hpast : w'.now < i.expires := hlater ▸ early
        exact Or.inr ⟨fun due hdue ↦ hexpires.trans_le ((serves 0 due).mp hdue).le,
          { w' with now := i.expires }, hfollows.elapse hpast.le,
          beats_of_late site t cycle hpast hexpires⟩

/-! ### Cycles -/

/-- What a cycle would come to that ran alone now. -/
def verdict (w : World Double) (site : Site) (cycle : Cycle) : Except Error (Plan × Table String) :=
  cycle.outcome site (w.inventory site) w.cells.size w.books

end World

/-- The groups whose members a cycle has to list. -/
def toll : Except Error (Plan × Table String) → Nat
  | .error _ => 0
  | .ok (plan, _) => plan.groups.length

def Books.settle (b : Books) : Except Error (Plan × Table String) → Books
  | .error _ => b
  | .ok (plan, index) => b.install plan index

namespace World

theorem planCycle_of_error {listed : Except Error (List ScaleSet)} {e : Error}
    (h : (listed.bind fun l ↦ cycle.candidates site l) = .error e) :
    Ends site t cycle (w.planCycle site t cycle listed) (.error e) w.books w.now := by
  unfold planCycle
  dsimp only
  rw [h]
  exact ⟨_, .refl _, rfl, rfl⟩

/-- A cycle that plans comes to its verdict when the last of its tokens is taken, or fails at the
deadline of its member listings. -/
theorem ends_planCycle (t : Ticket) (cycle : Cycle) (h : w.Obliging site) :
    (∃ due ≤ w.now + site.inventoryTimeout.ceilMillis,
      (w.limiter .virtualMachine).Serves .read w.now (toll (w.verdict site cycle)) due ∧
        Ends site t cycle (w.planCycle site t cycle (cycle.listing site (w.inventory site)))
          ((w.verdict site cycle).map fun _ ↦ ()) (w.books.settle (w.verdict site cycle)) due) ∨
    ((∀ due, (w.limiter .virtualMachine).Serves .read w.now (toll (w.verdict site cycle)) due →
        w.now + site.inventoryTimeout.ceilMillis < due) ∧
      ∃ name, Ends site t cycle
        (w.planCycle site t cycle (cycle.listing site (w.inventory site)))
        (.error (.deadlineExceeded (.members name) site.inventoryTimeout)) w.books
        (w.now + site.inventoryTimeout.ceilMillis)) := by
  cases hcandidates : (cycle.listing site (w.inventory site)).bind
      fun l ↦ cycle.candidates site l with
  | error e =>
    have hverdict : w.verdict site cycle = .error e := by
      unfold verdict Cycle.outcome
      rw [hcandidates]
    rw [hverdict]
    exact Or.inl ⟨w.now, Nat.le_add_right _ _, .none _ _, planCycle_of_error hcandidates⟩
  | ok candidates =>
    obtain ⟨cells, hnew⟩ :=
      ({ w with journal := w.journal.settle } : World Double).inquired_newGroups candidates
    obtain ⟨members, -, hmembers⟩ := h.forthcoming.gathered_answered
      (cycle.plan w.registry w.pinned (handles w.cells.size candidates)).groups
    have hverdict : w.verdict site cycle =
        .ok (cycle.plan w.registry w.pinned (handles w.cells.size candidates),
          memberIndex members) :=
      Cycle.outcome_eq_ok.mpr ⟨candidates, members, hcandidates, rfl, hmembers, rfl⟩
    have hobliging : ({ w with cells, journal := w.journal.settle } : World Double).Obliging site :=
      ⟨regular_of_eq rfl h.regular, h.prompt, h.forthcoming⟩
    rw [hverdict]
    unfold planCycle
    dsimp only
    rw [hcandidates]
    dsimp only
    rw [hnew]
    exact ends_indexing (i := .start site w.now) hobliging (List.nil_append _).symm trivial
      (Nat.le_add_right _ _) hmembers

/-- The moment at which a cycle has got the last of its tokens, if it gets them in time:
one for each listing of scale sets within the timeout, and then one for each group within
the timeout again. -/
def Affords (w : World Double) (site : Site) (listings groups due : Nat) : Prop :=
  ∃ listed, (w.limiter .virtualMachineScaleSet).Serves .read w.now listings listed ∧
    listed ≤ w.now + site.inventoryTimeout.ceilMillis ∧
    (w.limiter .virtualMachine).Serves .read listed groups due ∧
    due ≤ listed + site.inventoryTimeout.ceilMillis

theorem Affords.le {listings groups due : Nat} (h : w.Affords site listings groups due) :
    w.now ≤ due := by
  obtain ⟨listed, hlisted, -, hdue, -⟩ := h
  exact hlisted.le.trans hdue.le

theorem Affords.unique {listings groups due due' : Nat} (h : w.Affords site listings groups due)
    (h' : w.Affords site listings groups due') : due = due' := by
  obtain ⟨listed, hlisted, -, hdue, -⟩ := h
  obtain ⟨listed', hlisted', -, hdue', -⟩ := h'
  obtain rfl := hlisted.unique hlisted'
  exact hdue.unique hdue'

theorem Follows.verdict (h : Follows w w') : w'.verdict site cycle = w.verdict site cycle := by
  have hinventory : w'.inventory site = w.inventory site := h.queried.inventory site
  have hbooks : w'.books = w.books := h.queried.books
  obtain ⟨cloud, quotas, hsame⟩ := h.queried.same
  have hcells : w'.cells = w.cells := (congrArg World.cells hsame).trans rfl
  unfold World.verdict
  rw [hinventory, hbooks, hcells]

/-- A cycle that has got the tokens for its listing comes to its verdict when it has got the others,
or a member listing of it gives up. -/
theorem ends_of_listed {r : World Double × Progress CyclePhase (Except Error Unit)} {listings : Nat}
    (h : w.Obliging site) (hfollows : Follows w w')
    (hserved : (w.limiter .virtualMachineScaleSet).Serves .read w.now listings w'.now)
    (hin : w'.now ≤ w.now + site.inventoryTimeout.ceilMillis)
    (hbeats : Beats site t cycle r
      (w'.planCycle site t cycle (cycle.listing site (w.inventory site)))) :
    (∃ due, w.Affords site listings (toll (w.verdict site cycle)) due ∧
      Ends site t cycle r ((w.verdict site cycle).map fun _ ↦ ())
        (w.books.settle (w.verdict site cycle)) due) ∨
    ((∀ due, ¬ w.Affords site listings (toll (w.verdict site cycle)) due) ∧
      ∃ q due, w.now ≤ due ∧ Ends site t cycle r
        (.error (.deadlineExceeded q site.inventoryTimeout)) w.books due) := by
  have hplanned := ends_planCycle t cycle (hfollows.obliging h)
  have hinventory : w'.inventory site = w.inventory site := hfollows.queried.inventory site
  have hbooks : w'.books = w.books := hfollows.queried.books
  rw [hfollows.verdict, hfollows.limiter, hinventory, hbooks] at hplanned
  rcases hplanned with ⟨due, hlast, hserves, hends⟩ | ⟨hlate, name, hends⟩
  · exact Or.inl ⟨due, ⟨w'.now, hserved, hin, hserves, hlast⟩, .of_beats hbeats hends⟩
  · refine Or.inr ⟨?_, .members name, _, hfollows.later.trans (Nat.le_add_right _ _),
      .of_beats hbeats hends⟩
    rintro due ⟨listed, hlisted, -, hserves, hlast⟩
    obtain rfl := hlisted.unique hserved
    exact (hlate due hserves).not_ge hlast

/-- A cycle that finds the gate open comes to its verdict when it has got its tokens, or a question
of it gives up and it changes nothing. -/
theorem ends_startCycle (t : Ticket) (cycle : Cycle) (h : w.Obliging site) (hgate : w.gate = []) :
    (∃ due, w.Affords site (if cycle.needsListing site then 1 else 0)
        (toll (w.verdict site cycle)) due ∧
      Ends site t cycle (w.startCycle site t cycle) ((w.verdict site cycle).map fun _ ↦ ())
        (w.books.settle (w.verdict site cycle)) due) ∨
    ((∀ due, ¬ w.Affords site (if cycle.needsListing site then 1 else 0)
        (toll (w.verdict site cycle)) due) ∧
      ∃ q due, w.now ≤ due ∧ Ends site t cycle (w.startCycle site t cycle)
        (.error (.deadlineExceeded q site.inventoryTimeout)) w.books due) := by
  have hhas : (w.joinGate t).hasGate t = true := by
    unfold hasGate joinGate
    rw [hgate]
    exact beq_self_eq_true (some t)
  have hstart : w.startCycle site t cycle =
      let w := { w.joinGate t with journal := (w.joinGate t).journal.giveGate t }
      if cycle.needsListing site then w.pollListing site t cycle (.start site w.now)
      else w.planCycle site t cycle (.ok []) := if_pos hhas
  rw [hstart]
  generalize hbegun :
    ({ w.joinGate t with journal := (w.joinGate t).journal.giveGate t } : World Double) = begun
  have hobliging : begun.Obliging site := by
    subst hbegun
    exact ⟨regular_of_eq rfl h.regular, h.prompt, h.forthcoming⟩
  obtain ⟨hnow, hverdict, hbooks, haffords⟩ : begun.now = w.now ∧
      begun.verdict site cycle = w.verdict site cycle ∧ begun.books = w.books ∧
      begun.Affords site = w.Affords site := by
    subst hbegun
    exact ⟨rfl, rfl, rfl, rfl⟩
  rw [← hverdict, ← hbooks, ← haffords, ← hnow]
  dsimp only
  by_cases hneeds : cycle.needsListing site = true
  · have hlisting : cycle.listing site (begun.inventory site) = begun.reply site .scaleSets :=
      if_pos hneeds
    rw [if_pos hneeds, if_pos hneeds]
    rcases beats_listing t cycle (i := .start site begun.now) hobliging trivial
        (Nat.le_add_right _ _) with
      ⟨w', hfollows, hin, hserved, hbeats⟩ | ⟨hlate, w', hfollows, hbeats⟩
    · exact ends_of_listed hobliging hfollows hserved hin (hlisting ▸ hbeats)
    · refine Or.inr ⟨?_, .scaleSets, w'.now, hfollows.later, ?_⟩
      · rintro due ⟨listed, hlisted, hin, -⟩
        exact (hlate listed hlisted).not_ge hin
      · have hgivesUp : Ends site t cycle (w'.planCycle site t cycle
            (.error (.deadlineExceeded .scaleSets site.inventoryTimeout)))
            (.error (.deadlineExceeded .scaleSets site.inventoryTimeout)) w'.books w'.now :=
          planCycle_of_error rfl
        rw [show w'.books = begun.books from hfollows.queried.books] at hgivesUp
        exact .of_beats hbeats hgivesUp
  · have hlisting : cycle.listing site (begun.inventory site) = .ok [] := if_neg hneeds
    rw [if_neg hneeds, if_neg hneeds]
    refine ends_of_listed hobliging ⟨le_rfl, .refl _, id, rfl⟩ (.none _ _) (Nat.le_add_right _ _) ?_
    rw [hlisting]
    exact .refl _

end World

end NodeFleet.Fleet
