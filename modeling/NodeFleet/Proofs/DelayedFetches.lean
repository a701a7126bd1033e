import NodeFleet.Proofs.Delay
import NodeFleet.Proofs.GateLine
import NodeFleet.Proofs.Planning
/-!
Fetches through quotas and without them. On a fleet at which nothing is under way, whose cloud
answers at once and without error, a fetch without quotas ends at once. Through the buckets of any
limits, in any state to which a history has brought them, it comes to the same result and the same
books, only later, just when its questions get their tokens in time; otherwise it gives up and
changes nothing.
-/

set_option autoImplicit false
set_option relaxedAutoImplicit false

namespace NodeFleet.Fleet

open NodeFleet.Discovery NodeFleet.Number NodeFleet.Quota

namespace Operation

def IsFetch : Operation → Prop
  | fetchExplicit _ => True
  | fetchAuto => True
  | _ => False

/-- How many listings of scale sets the operation may ask for. -/
def listings (site : Site) (o : Operation) : Nat :=
  (o.cycles site).countP fun cycle ↦ cycle.needsListing site

/-- A fetch fails at once, without any cycle, or is one cycle. -/
theorem isFetch_cases {o : Operation} (ho : o.IsFetch) (site : Site) :
    (o.cycles site = [] ∧ ∃ e, ∀ (w : World Double) t,
      w.startOperation site t o = (w, .finished (.failed e))) ∨
    ∃ cycle, o.cycles site = [cycle] ∧ ∀ (w : World Double) t,
      w.startOperation site t o = w.startErrand site t (.fetch cycle) := by
  cases o with
  | fetchExplicit texts =>
    dsimp only [cycles, World.startOperation]
    cases ExplicitSpec.parseAll texts with
    | error e => exact Or.inl ⟨rfl, e, fun _ _ ↦ rfl⟩
    | ok specs => exact Or.inr ⟨.explicit specs, rfl, fun _ _ ↦ rfl⟩
  | fetchAuto => exact Or.inr ⟨.auto, rfl, fun _ _ ↦ rfl⟩
  | _ => exact ho.elim

end Operation

/-- The operation, begun now, comes to an end; then the fleet is this, and that is its outcome. -/
def Comes (f : Fleet Double) (o : Operation) (f' : Fleet Double) (outcome : Outcome) : Prop :=
  ∃ rounds, ∀ fuel, rounds ≤ fuel → f.perform fuel o = (f', some outcome)

namespace Comes

variable {f f' f'' : Fleet Double} {o : Operation} {outcome outcome' : Outcome}

theorem unique (h : f.Comes o f' outcome) (h' : f.Comes o f'' outcome') :
    f' = f'' ∧ outcome = outcome' := by
  obtain ⟨rounds, hrun⟩ := h
  obtain ⟨rounds', hrun'⟩ := h'
  have hsame := (hrun (rounds + rounds') (Nat.le_add_right _ _)).symm.trans
    (hrun' (rounds + rounds') (Nat.le_add_left _ _))
  exact ⟨congrArg Prod.fst hsame, Option.some.inj (congrArg Prod.snd hsame)⟩

/-- An operation that leaves the fleet at rest has come to its end. -/
theorem of_perform {rounds : Nat} (hrest : (f.perform rounds o).1.isAtRest = true)
    (ho : (f.perform rounds o).2 = some outcome) :
    f.Comes o (f.perform rounds o).1 outcome := by
  refine ⟨rounds, fun fuel hfuel ↦ ?_⟩
  obtain ⟨more, rfl⟩ := Nat.exists_eq_add_of_le hfuel
  have hrun : (f.begin o).run (rounds + more) = (f.perform rounds o).1 :=
    (run_add rounds more _).trans (run_of_isAtRest hrest more)
  have hperform : f.perform (rounds + more) o =
      ((f.begin o).run (rounds + more), ((f.begin o).run (rounds + more)).outcome? f.nextTicket) :=
    rfl
  rw [hperform, hrun]
  exact congrArg (Prod.mk _) ho

end Comes

/-- The fleet with nothing between it and its cloud. -/
def unlimited (f : Fleet Double) : Fleet Double :=
  { f with world := { f.world with quotas := none } }

/-- A fleet behind the buckets of limits, after some history. -/
def Limited (limits : Limits) (f : Fleet Double) : Prop :=
  ∃ site cloud files events, f = (fresh site cloud files (some (.ofLimits limits 0))).after events

theorem Limited.reachable {limits : Limits} {f : Fleet Double} (hf : f.Limited limits) :
    f.Reachable := by
  obtain ⟨site, cloud, files, events, rfl⟩ := hf
  exact ⟨site, cloud, files, _, events, rfl⟩

theorem Limited.regular {limits : Limits} {f : Fleet Double} (hf : f.Limited limits) :
    f.world.Regular := by
  obtain ⟨site, cloud, files, events, rfl⟩ := hf
  exact regular_after (regular_fresh site cloud files limits) events

/-- Nothing is under way, and nothing has come of what begins next. -/
structure Idle (f : Fleet Double) : Prop where
  activities : f.activities = []
  gate : f.world.gate = []
  unanswered : f.outcome? f.nextTicket = none

theorem Reachable.idle {f : Fleet Double} (hf : f.Reachable) (hidle : f.activities = []) :
    f.Idle := by
  refine ⟨hidle, hf.gate_of_idle hidle, ?_⟩
  obtain ⟨site, cloud, files, quotas, events, rfl⟩ := hf
  exact outcome?_eq_none_of_le (tracked_after site cloud files quotas events) (Nat.le_refl _)

/-- How many member listings a fetch has asked for that has come to this. -/
def listed (f : Fleet Double) (outcome : Outcome) : Nat :=
  if outcome.isDone then f.world.registry.groups.length else 0

/-- The fleet on which a fetch leaves by way of its quotas is, but for the time, that on which it
leaves directly, if its questions get their tokens in time. -/
structure Delayed (f : Fleet Double) (o : Operation) (direct : Fleet Double) (outcome : Outcome)
    (limited : Fleet Double) (result : Outcome) : Prop where
  at_once : direct.world.now = f.world.now
  later : f.world.now ≤ limited.world.now
  in_time : ∀ due, f.world.Affords f.site (o.listings f.site) (direct.listed outcome) due →
    result = outcome ∧ limited.world.books = direct.world.books ∧ limited.world.now = due
  late : (∀ due, ¬ f.world.Affords f.site (o.listings f.site) (direct.listed outcome) due) →
    (∃ q, result = .failed (.deadlineExceeded q f.site.inventoryTimeout)) ∧
      limited.world.books = f.world.books

/-! ### Ends of fetches -/

namespace Idle

variable {f : Fleet Double} {o : Operation}

theorem unlimited (h : f.Idle) : f.unlimited.Idle :=
  ⟨h.activities, h.gate, h.unanswered⟩

theorem comes_of_failed (h : f.Idle) {e : Error}
    (ho : f.world.startOperation f.site f.nextTicket o = (f.world, .finished (.failed e))) :
    ∃ f', f.Comes o f' (.failed e) ∧ f'.world = f.world := by
  have hrest : (f.begin o).isAtRest = true := by
    unfold Fleet.begin
    rw [ho]
    dsimp only [isAtRest, tickets]
    rw [h.activities]
    rfl
  refine ⟨f.begin o, ⟨0, fun fuel _ ↦ ?_⟩, ?_⟩
  · unfold perform
    dsimp only
    rw [run_of_isAtRest hrest, outcome?_begin, h.unanswered, ho]
    exact congrArg (Prod.mk (f.begin o)) (if_pos rfl)
  · rw [world_begin, ho]

theorem comes_of_ends (h : f.Idle) {cycle : Cycle} {result : Except Error Unit} {books : Books}
    {due : Nat} (ho : f.world.startOperation f.site f.nextTicket o =
      f.world.startErrand f.site f.nextTicket (.fetch cycle))
    (he : Ends f.site f.nextTicket cycle (f.world.startCycle f.site f.nextTicket cycle) result books
      due) :
    ∃ f', f.Comes o f' (World.ofResult (fun _ ↦ .done) result) ∧ f'.world.books = books ∧
      f'.world.now = due := by
  obtain ⟨w, hbeats, hbooks, hdue⟩ := he
  obtain ⟨rounds, hrun⟩ := run_of_beats hbeats
  refine ⟨f.fetching cycle (w, .finished result), ⟨rounds, fun fuel hfuel ↦ ?_⟩, hbooks, hdue⟩
  unfold perform
  dsimp only
  rw [begin_eq_fetching h.activities ho, hrun fuel hfuel, outcome?_fetching h.unanswered]

/-- A fetch that is one cycle comes to the verdict of that when it has got its tokens, or gives up
and changes nothing. -/
theorem comes_of_cycle (h : f.Idle) (hw : f.world.Obliging f.site) {cycle : Cycle}
    (ho : f.world.startOperation f.site f.nextTicket o =
      f.world.startErrand f.site f.nextTicket (.fetch cycle)) :
    (∃ f' due, f.world.Affords f.site (if cycle.needsListing f.site then 1 else 0)
        (toll (f.world.verdict f.site cycle)) due ∧
      f.Comes o f' (World.ofResult (fun _ ↦ .done)
        ((f.world.verdict f.site cycle).map fun _ ↦ ())) ∧
      f'.world.books = f.world.books.settle (f.world.verdict f.site cycle) ∧
      f'.world.now = due) ∨
    ((∀ due, ¬ f.world.Affords f.site (if cycle.needsListing f.site then 1 else 0)
        (toll (f.world.verdict f.site cycle)) due) ∧
      ∃ f' q, f.Comes o f' (.failed (.deadlineExceeded q f.site.inventoryTimeout)) ∧
        f'.world.books = f.world.books ∧ f.world.now ≤ f'.world.now) := by
  rcases World.ends_startCycle f.nextTicket cycle hw h.gate with
    ⟨due, haffords, hends⟩ | ⟨hnever, q, due, hlater, hends⟩
  · obtain ⟨f', hcomes, hbooks, hdue⟩ := h.comes_of_ends ho hends
    exact Or.inl ⟨f', due, haffords, hcomes, hbooks, hdue⟩
  · obtain ⟨f', hcomes, hbooks, hdue⟩ := h.comes_of_ends ho hends
    exact Or.inr ⟨hnever, f', q, hcomes, hbooks, hdue.symm ▸ hlater⟩

end Idle

namespace World

variable {w : World Double} {site : Site} {cycle : Cycle}

theorem Obliging.unlimited (h : w.Obliging site) :
    ({ w with quotas := none } : World Double).Obliging site := by
  refine ⟨fun c b hb ↦ ?_, h.prompt, h.forthcoming⟩
  cases hb

/-- Without quotas every cycle has got its tokens at once. -/
theorem affords_unlimited (w : World Double) (site : Site) (listings groups : Nat) :
    ({ w with quotas := none } : World Double).Affords site listings groups w.now := by
  have hserves : ∀ c n, (({ w with quotas := none } : World Double).limiter c).Serves .read w.now n
      w.now := by
    intro c n
    induction n with
    | zero => exact .none _ _
    | succ n ih => exact (Limiter.serves_of_taken rfl).mpr ih
  exact ⟨w.now, hserves _ _, Nat.le_add_right _ _, hserves _ _, Nat.le_add_right _ _⟩

theorem affords_nothing (w : World Double) (site : Site) : w.Affords site 0 0 w.now :=
  ⟨w.now, .none _ _, Nat.le_add_right _ _, .none _ _, Nat.le_add_right _ _⟩

/-- A cycle has as many member listings to ask for as it leaves groups. -/
theorem listed_of_settle {f' : Fleet Double}
    (hbooks : f'.world.books = w.books.settle (w.verdict site cycle)) :
    f'.listed (ofResult (fun _ ↦ .done) ((w.verdict site cycle).map fun _ ↦ ())) =
      toll (w.verdict site cycle) := by
  cases hverdict : w.verdict site cycle with
  | error e => rfl
  | ok made =>
    obtain ⟨plan, index⟩ := made
    rw [hverdict] at hbooks
    have hregistry : f'.world.registry = plan.commit w.registry index :=
      congrArg Books.registry hbooks
    obtain ⟨candidates, members, -, hplan, -⟩ := Cycle.outcome_eq_ok.mp hverdict
    have hmarked : plan.Marked w.registry := hplan ▸ marked_plan cycle w.registry _ _
    show f'.world.registry.groups.length = plan.groups.length
    rw [hregistry, Plan.groups_commit hmarked]

end World

/-- A fetch through quotas comes to what it comes to without them, only later, just when its
questions get their tokens in time; otherwise it gives up and changes nothing. -/
theorem delayed_fetch {limits : Limits} {f : Fleet Double} (hf : f.Limited limits)
    (hidle : f.activities = []) (hp : f.world.Prompt) (hw : f.world.Forthcoming f.site)
    {o : Operation} (ho : o.IsFetch) :
    ∃ direct outcome limited result, f.unlimited.Comes o direct outcome ∧
      f.Comes o limited result ∧ f.Delayed o direct outcome limited result := by
  have hrest := hf.reachable.idle hidle
  have hobliging : f.world.Obliging f.site := ⟨hf.regular, hp, hw⟩
  rcases Operation.isFetch_cases ho f.site with ⟨hcycles, e, hstart⟩ | ⟨cycle, hcycles, hstart⟩
  · obtain ⟨direct, hdirect, hkept⟩ := hrest.unlimited.comes_of_failed (hstart _ _)
    obtain ⟨limited, hlimited, hsame⟩ := hrest.comes_of_failed (hstart _ _)
    have hnow : f.world.Affords f.site (o.listings f.site) (direct.listed (.failed e))
        f.world.now := by
      unfold Operation.listings
      rw [hcycles]
      exact f.world.affords_nothing f.site
    refine ⟨direct, .failed e, limited, .failed e, hdirect, hlimited, ?_, ?_, ?_, ?_⟩
    · rw [hkept]
      rfl
    · rw [hsame]
    · intro due hdue
      rw [hsame, hkept]
      exact ⟨rfl, rfl, hnow.unique hdue⟩
    · exact fun hnever ↦ absurd hnow (hnever _)
  · have hlistings : o.listings f.site = if cycle.needsListing f.site then 1 else 0 := by
      unfold Operation.listings
      rw [hcycles, List.countP_singleton]
    have hfree := f.world.affords_unlimited f.site (if cycle.needsListing f.site then 1 else 0)
      (toll (f.world.verdict f.site cycle))
    rcases hrest.unlimited.comes_of_cycle hobliging.unlimited (hstart _ _) with
      ⟨direct, due, haffords, hdirect, hbooks, hnow⟩ | ⟨hnever, -⟩
    · obtain rfl := hfree.unique haffords
      have hlisted := World.listed_of_settle (w := f.world) hbooks
      rcases hrest.comes_of_cycle hobliging (hstart _ _) with
        ⟨limited, due, haffords, hlimited, hsame, hdue⟩ |
          ⟨hnever, limited, q, hlimited, hsame, hlater⟩
      · refine ⟨direct, _, limited, _, hdirect, hlimited, hnow, hdue.symm ▸ haffords.le, ?_, ?_⟩
        · rw [hlistings]
          refine fun due' hdue' ↦ ⟨rfl, hsame.trans hbooks.symm, hdue.trans ?_⟩
          exact haffords.unique (hlisted ▸ hdue')
        · rw [hlistings]
          exact fun hnever ↦ absurd haffords (hlisted ▸ hnever due)
      · refine ⟨direct, _, limited, _, hdirect, hlimited, hnow, hlater, ?_, ?_⟩
        · rw [hlistings]
          exact fun due' hdue' ↦ absurd (hlisted ▸ hdue') (hnever due')
        · exact fun _ ↦ ⟨⟨q, rfl⟩, hsame⟩
    · exact absurd hfree (hnever _)

section

variable {w : World Double} {a : Account}

theorem World.prompt_account (hcloud : w.cloud = .account a) (hline : w.line = .clear)
    (hlatency : a.latency = 0) : w.Prompt := by
  intro q
  unfold World.lag
  rw [hcloud, hline]
  exact hlatency

/-- An account that does not fail has members to tell of every scale set, or that it is gone. -/
theorem World.forthcoming_account (hcloud : w.cloud = .account a) (hline : w.line = .clear)
    (hfailure : a.failure = none) (site : Site) : w.Forthcoming site := by
  intro name
  have hanswer : w.answer site.resourceGroup (.members name) =
      (a.find site.resourceGroup name).map fun _ ↦ a.membersOf site.resourceGroup name := by
    have hup : a.answer site.resourceGroup (.members name) =
        a.lookUp site.resourceGroup (.members name) := by
      unfold Account.answer
      rw [hfailure]
    unfold World.answer
    rw [hcloud, hline]
    exact hup
  unfold World.reply
  rw [hanswer]
  unfold Account.find
  split
  · exact ⟨_, rfl⟩
  · exact ⟨[], rfl⟩

end

def pairSite : Site :=
  ⟨"rg", .ofSeconds 30, .ofSeconds 60, []⟩

/-- Two scale sets with a member each. -/
def pairAccount : Account :=
  let stocked := Account.empty.setScaleSets "rg" [⟨"a", .empty, 1⟩, ⟨"b", .empty, 1⟩]
  (stocked.setMembers "rg" "a" [⟨"x", "x"⟩]).setMembers "rg" "b" [⟨"y", "y"⟩]

/-- Buckets of one token. -/
def sparse (qps : Single) : Limits :=
  ⟨⟨true, qps, 1, qps, 1⟩, fun _ ↦ none⟩

/-- Both scale sets are registered. -/
def pairFleet (qps : Single) : Fleet Double :=
  (fresh pairSite (.account pairAccount) .empty (some (.ofLimits (sparse qps) 0))).after
    [.register ⟨"a", ⟨1, 3⟩⟩, .register ⟨"b", ⟨1, 3⟩⟩]

theorem limited_pairFleet (qps : Single) : (pairFleet qps).Limited (sparse qps) :=
  ⟨pairSite, .account pairAccount, .empty, _, rfl⟩

theorem prompt_pairFleet (qps : Single) : (pairFleet qps).world.Prompt :=
  World.prompt_account (a := pairAccount) rfl rfl rfl

theorem forthcoming_pairFleet (qps : Single) : (pairFleet qps).world.Forthcoming pairSite :=
  World.forthcoming_account (a := pairAccount) rfl rfl rfl pairSite

/-- A token in sixteen seconds: the second group is listed when the first has been for as long. -/
theorem delayed_fetch_of_pair :
    (∃ direct outcome limited result,
      (pairFleet (.ofRat (1 / 16))).unlimited.Comes (.fetchExplicit []) direct outcome ∧
        (pairFleet (.ofRat (1 / 16))).Comes (.fetchExplicit []) limited result ∧
          (pairFleet (.ofRat (1 / 16))).Delayed (.fetchExplicit []) direct outcome limited result) ∧
      ((pairFleet (.ofRat (1 / 16))).perform 10 (.fetchExplicit [])).2.any Outcome.isDone = true ∧
        ((pairFleet (.ofRat (1 / 16))).perform 10 (.fetchExplicit [])).1.world.now = 16000 := by
  refine ⟨?_, by decide +kernel, by decide +kernel⟩
  exact delayed_fetch (limited_pairFleet _) rfl (prompt_pairFleet _) (forthcoming_pairFleet _)
    trivial

/-- A token in sixty-four seconds, which is later than the deadline: the fetch fails that would
succeed without quotas. -/
theorem undone_by_quotas :
    (sparse (.ofRat (1 / 64))).defaults.enabled = true ∧
      Binary.zero.lt (sparse (.ofRat (1 / 64))).defaults.qps = true ∧
      (sparse (.ofRat (1 / 64))).defaults.qps.isFinite = true ∧
      (pairFleet (.ofRat (1 / 64))).Limited (sparse (.ofRat (1 / 64))) ∧
      (pairFleet (.ofRat (1 / 64))).activities = [] ∧
      (pairFleet (.ofRat (1 / 64))).world.Prompt ∧
      (pairFleet (.ofRat (1 / 64))).world.Forthcoming pairSite ∧
      ¬ ∃ direct limited outcome,
        (pairFleet (.ofRat (1 / 64))).unlimited.Comes (.fetchExplicit []) direct outcome ∧
          (pairFleet (.ofRat (1 / 64))).Comes (.fetchExplicit []) limited outcome := by
  refine ⟨rfl, by decide +kernel, by decide +kernel, limited_pairFleet _, rfl, prompt_pairFleet _,
    forthcoming_pairFleet _, ?_⟩
  rintro ⟨direct, limited, outcome, hdirect, hlimited⟩
  have hdone : ((pairFleet (.ofRat (1 / 64))).unlimited.perform 10 (.fetchExplicit [])).2.any
      Outcome.isDone = true := by
    decide +kernel
  have hfailed : ((pairFleet (.ofRat (1 / 64))).perform 10 (.fetchExplicit [])).2.any
      Outcome.isFailed = true := by
    decide +kernel
  obtain ⟨failure, hfailure, hfails⟩ := (Option.any_eq_true _ _).mp hfailed
  have hcomes := Comes.of_perform (by decide +kernel) (Outcome.eq_done hdone)
  have hfalls := Comes.of_perform (by decide +kernel) hfailure
  obtain rfl := (hdirect.unique hcomes).2
  obtain rfl := (hlimited.unique hfalls).2
  cases hfails

end NodeFleet.Fleet
