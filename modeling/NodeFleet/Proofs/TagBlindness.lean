import NodeFleet.Proofs.Alignment
import NodeFleet.Proofs.Installation
import NodeFleet.Proofs.SideBySide
/-!
Size tags of pinned scale sets, and what an auto discovery makes of them. The bounds that they state
make no difference, for the groups of pinned names keep those that they have. But the tags are
checked before the pinned names are set aside, and by design a single selected scale set with bad
size tags fails a discovery. So the same call on an inventory with other tags goes the same way at
every moment as long as both inventories are refused alike; and on an inventory that is refused it
fails, if it ends, and changes nothing.
-/

set_option autoImplicit false
set_option relaxedAutoImplicit false

namespace NodeFleet.Fleet

open NodeFleet.Discovery NodeFleet.Quota

variable {α : Type}

/-! ### The course of a call -/

/-- An event in the course of a call with which nothing interferes, on an inventory that stays as it
is. -/
def Event.Awaits (t : Ticket) : Event → Prop
  | poll t' => t' = t
  | elapse _ => True
  | _ => False

/-- Where a call stands that has come to a step. -/
structure Stands (t : Ticket) (p : Step α) (f : Fleet α) : Prop where
  world : f.world = p.1
  activity : f.activity? t = match p.2 with
    | .waiting a => some a
    | .finished _ => none
  outcome : f.outcome? t = match p.2 with
    | .waiting _ => none
    | .finished o => some o

theorem Advances.stands {t : Ticket} {p : Step α} {f f' : Fleet α} (h : Advances t p f f') :
    Stands t p f' :=
  ⟨h.world, h.activity, h.outcome⟩

section

variable [Balance α]

/-- What an event makes of a step to which a call has come. -/
def carry (site : Site) (t : Ticket) (p : Step α) : Event → Step α
  | .poll _ =>
    match p with
    | (w, .waiting a) => w.pollActivity site t a
    | (w, .finished o) => (w, .finished o)
  | .elapse millis => ({ p.1 with now := p.1.now + millis }, p.2)
  | _ => p

/-- What a call that begins on a world comes to. -/
def course (site : Site) (t : Ticket) (w : World α) (o : Operation) (during : List Event) :
    Step α :=
  during.foldl (carry site t) (w.startOperation site t o)

theorem course_concat (site : Site) (t : Ticket) (w : World α) (o : Operation) (during : List Event)
    (e : Event) :
    course site t w o (during ++ [e]) = carry site t (course site t w o during) e :=
  List.foldl_concat _ _ _ _

theorem Stands.step {t : Ticket} {p : Step α} {f : Fleet α} (h : Stands t p f) {e : Event}
    (he : e.Awaits t) : Stands t (carry f.site t p e) (f.step e) := by
  obtain ⟨hworld, hactivity, houtcome⟩ := h
  cases e with
  | elapse millis =>
    refine ⟨?_, hactivity, houtcome⟩
    show ({ f.world with now := f.world.now + millis } : World α) = _
    rw [hworld]
    rfl
  | poll t' =>
    obtain rfl := he
    rcases p with ⟨w, a | o⟩
    · obtain rfl : f.world = w := hworld
      exact (advances_poll hactivity houtcome).stands
    · show Stands t' _ (f.poll t')
      unfold Fleet.poll
      rw [hactivity]
      exact ⟨hworld, hactivity, houtcome⟩
  | _ => exact he.elim

/-- A call with which nothing interferes stands where its course says. -/
theorem stands_after {f : Fleet α} (hfresh : f.activity? f.nextTicket = none)
    (hnone : f.outcome? f.nextTicket = none) (o : Operation) {during : List Event}
    (hawaits : ∀ e ∈ during, e.Awaits f.nextTicket) :
    Stands f.nextTicket (course f.site f.nextTicket f.world o during)
      ((f.begin o).after during) := by
  induction during using List.reverseRecOn with
  | nil => exact (advances_begin hfresh hnone o).stands
  | append_singleton before e ih =>
    have hbefore := ih fun x hx ↦ hawaits x (List.mem_append_left _ hx)
    have hsite : ((f.begin o).after before).site = f.site :=
      ((f.begin o).site_after before).1.trans (f.site_begin o)
    rw [after_concat, course_concat, ← hsite]
    rw [← hsite] at hbefore
    exact hbefore.step (hawaits e (by simp))

/-! ### Side by side -/

/-- Auto discoveries in phases that differ at most in what goes into the journal. -/
inductive Activity.Aligned : Activity → Activity → Prop
  | discovering {phase phase' : CyclePhase} : phase.Aligned phase' →
      Activity.Aligned (.discovering (.fetch .auto) phase) (.discovering (.fetch .auto) phase')

variable {site : Site} {t : Ticket} {w w' w₀ : World α}

omit [Balance α] in
theorem paired_wrapCycle {P : World α → World α → Prop}
    {r r' : World α × Progress CyclePhase (Except Error Unit)}
    (h : Paired P CyclePhase.Aligned Eq r r') :
    Paired P Activity.Aligned Eq (World.wrapCycle (.fetch .auto) r)
      (World.wrapCycle (.fetch .auto) r') := by
  cases h with
  | waiting hw hphase => exact .waiting hw (.discovering hphase)
  | finished hw hresult =>
    obtain rfl := hresult
    exact .finished hw rfl

theorem paired_carry {p p' : Step α} (h : Paired (World.Akin site) Activity.Aligned Eq p p')
    (e : Event) :
    Paired (World.Akin site) Activity.Aligned Eq (carry site t p e) (carry site t p' e) := by
  cases e with
  | poll t' =>
    cases h with
    | waiting hw hactivity =>
      cases hactivity with
      | discovering hphase => exact paired_wrapCycle (hw.pollCycle t hphase)
    | finished hw houtcome => exact .finished hw houtcome
  | elapse millis =>
    cases h with
    | waiting hw hactivity => exact .waiting (hw.elapse millis) hactivity
    | finished hw houtcome => exact .finished (hw.elapse millis) houtcome
  | _ => exact h

/-- Auto discoveries on worlds that are akin go on alike. -/
theorem paired_course (h : w.Akin site w') (t : Ticket) (during : List Event) :
    Paired (World.Akin site) Activity.Aligned Eq (course site t w .fetchAuto during)
      (course site t w' .fetchAuto during) := by
  induction during using List.reverseRecOn with
  | nil => exact paired_wrapCycle (h.startCycle t)
  | append_singleton before e ih =>
    rw [course_concat, course_concat]
    exact paired_carry ih e

/-! ### Refusals -/

/-- The phases before a cycle has planned. -/
def CyclePhase.IsEarly : CyclePhase → Prop
  | indexing _ _ _ => False
  | _ => True

/-- Where an auto discovery stands that is going to be refused. -/
inductive Balks (site : Site) (listing : List ScaleSet) (e : Error) (w₀ : World α) : Step α → Prop
  | waiting {w : World α} {phase : CyclePhase} : w₀.Spared w →
      w.answer site.resourceGroup .scaleSets = .ok listing → phase.IsEarly →
        Balks site listing e w₀ (w, .waiting (.discovering (.fetch .auto) phase))
  | failed {w : World α} {e' : Error} : w₀.Spared w →
      e' = e ∨ e' = .deadlineExceeded .scaleSets site.inventoryTimeout →
        Balks site listing e w₀ (w, .finished (.failed e'))

variable {listing : List ScaleSet} {e e' : Error}

theorem balks_planCycle (hw : w₀.Spared w) {listed : Except Error (List ScaleSet)}
    (hfails : (listed.bind fun l ↦ Cycle.candidates site l .auto) = .error e')
    (he : e' = e ∨ e' = .deadlineExceeded .scaleSets site.inventoryTimeout) :
    Balks site listing e w₀ (World.wrapCycle (.fetch .auto) (w.planCycle site t .auto listed)) := by
  unfold World.planCycle
  dsimp only
  rw [hfails]
  exact .failed (hw.of_eq rfl rfl rfl) he

theorem balks_pollListing (hw : w₀.Spared w)
    (hlisted : w.answer site.resourceGroup .scaleSets = .ok listing)
    (hrefused : Refused site.selectors listing e) (i : Inquiry) :
    Balks site listing e w₀ (World.wrapCycle (.fetch .auto) (w.pollListing site t .auto i)) := by
  have hspared := hw.trans (World.Spared.asking.pollInquiry w site .scaleSets i)
  have hanswers := (World.asking_inquired.pollInquiry w site .scaleSets i).2
  unfold World.pollListing
  rcases hpoll : w.pollInquiry site .scaleSets i with ⟨v, i' | listed⟩
  · rw [hpoll] at hspared hanswers
    exact .waiting hspared ((hanswers _ _).trans hlisted) trivial
  · rw [hpoll] at hspared
    rcases World.tells_pollInquiry (congrArg Prod.snd hpoll) with htold | hlate
    · rw [hlisted] at htold
      subst htold
      exact balks_planCycle hspared (selectedCandidates_eq_error_iff.mpr hrefused) (Or.inl rfl)
    · subst hlate
      exact balks_planCycle hspared rfl (Or.inr rfl)

theorem needsListing_of_refused (h : Refused site.selectors listing e) :
    Cycle.needsListing site .auto = true := by
  obtain ⟨-, s, -, -, ⟨x, hx, -⟩, -⟩ := h
  unfold Cycle.needsListing
  rw [List.isEmpty_eq_false_iff_exists_mem.mpr ⟨x, hx⟩]
  rfl

theorem balks_pollCycle (hw : w₀.Spared w)
    (hlisted : w.answer site.resourceGroup .scaleSets = .ok listing)
    (hrefused : Refused site.selectors listing e) {phase : CyclePhase} (hphase : phase.IsEarly) :
    Balks site listing e w₀ (World.wrapCycle (.fetch .auto) (w.pollCycle site t .auto phase)) := by
  cases phase with
  | indexing b plan listings => exact hphase.elim
  | listing i => exact balks_pollListing hw hlisted hrefused i
  | queued =>
    have hgiven : w₀.Spared { w with journal := w.journal.giveGate t } := hw.of_eq rfl rfl rfl
    dsimp only [World.pollCycle]
    rw [if_pos (needsListing_of_refused hrefused)]
    split_ifs
    · exact balks_pollListing hgiven hlisted hrefused _
    · exact .waiting hw hlisted trivial

theorem Balks.carry {p : Step α} (h : Balks site listing e w₀ p)
    (hrefused : Refused site.selectors listing e) (ev : Event) :
    Balks site listing e w₀ (carry site t p ev) := by
  cases ev with
  | poll t' =>
    cases h with
    | waiting hw hlisted hphase => exact balks_pollCycle hw hlisted hrefused hphase
    | failed hw he => exact .failed hw he
  | elapse millis =>
    cases h with
    | waiting hw hlisted hphase => exact .waiting (hw.of_eq rfl rfl rfl) hlisted hphase
    | failed hw he => exact .failed (hw.of_eq rfl rfl rfl) he
  | _ => exact h

/-- An auto discovery on an inventory that is refused fails, if it ends, and spares everything. -/
theorem balks_course (hlisted : w.answer site.resourceGroup .scaleSets = .ok listing)
    (hrefused : Refused site.selectors listing e) (t : Ticket) (during : List Event) :
    Balks site listing e w (course site t w .fetchAuto during) := by
  induction during using List.reverseRecOn with
  | nil =>
    have hjoined : w.Spared (w.joinGate t) := (World.Spared.refl w).of_eq rfl rfl rfl
    have hqueued : CyclePhase.queued.IsEarly := trivial
    exact balks_pollCycle hjoined hlisted hrefused hqueued
  | append_singleton before ev ih =>
    rw [course_concat]
    exact ih.carry hrefused ev

end

/-! ### Fleets -/

/-- Fleets in one state, on inventories that differ at most in size tags of pinned scale sets. -/
structure Retagged (f f' : Fleet α) : Prop where
  same : ∃ world, f' = { f with world }
  worlds : f.world.Aligned (fun pinned ↦ List.Forall₂ (ScaleSet.Retagged pinned))
    f.site.resourceGroup f'.world

/-- Whether the selectors of the site refuse what is listed. -/
def Refuses (f : Fleet α) (e : Error) : Prop :=
  ∃ listing, f.world.answer f.site.resourceGroup .scaleSets = .ok listing ∧
    Refused f.site.selectors listing e

/-- Whether the selected scale sets that are listed and pinned have size tags that state bounds. -/
def PinsSized (f : Fleet α) : Prop :=
  ∀ listing, f.world.answer f.site.resourceGroup .scaleSets = .ok listing →
    NodeFleet.PinsSized f.site.selectors f.world.pinned listing

/-- Fleets on which a call has come to the same and left the same. -/
structure Coincides (t : Ticket) (f f' : Fleet α) : Prop where
  outcome : f'.outcome? t = f.outcome? t
  registry : f'.world.registry = f.world.registry
  pinned : f'.world.pinned = f.world.pinned
  cells : f'.world.cells = f.world.cells

/-- A fleet on which a call has come to nothing but a failure, and has left a world as it was. -/
structure Refrains (t : Ticket) (e : Error) (w : World α) (f : Fleet α) : Prop where
  outcome : ∀ o, f.outcome? t = some o →
    o = .failed e ∨ o = .failed (.deadlineExceeded .scaleSets f.site.inventoryTimeout)
  spared : w.Spared f.world

variable {f f' : Fleet α} {w : World α} {t : Ticket} {listing : List ScaleSet} {e : Error}

/-- If neither inventory has a bad pinned scale set, both are refused alike. -/
theorem Retagged.refuses_iff (h : f.Retagged f') (hsilent : ∀ x ∈ f.site.selectors, x.Silent)
    (hsized : f.PinsSized) (hsized' : f'.PinsSized) (e : Error) : f.Refuses e ↔ f'.Refuses e := by
  obtain ⟨⟨world, rfl⟩, haligned⟩ := h
  have hlisted := haligned.listed
  have hpinned := haligned.pinned
  unfold PinsSized at hsized hsized'
  unfold Refuses
  dsimp only at hlisted hsized' ⊢
  generalize f.world.answer f.site.resourceGroup .scaleSets = answer at hlisted hsized ⊢
  generalize world.answer f.site.resourceGroup .scaleSets = answer' at hlisted hsized' ⊢
  cases hlisted with
  | error cause => simp
  | @ok listing listing' hretagged =>
    have hgood := hsized listing rfl
    have hgood' := hsized' listing' rfl
    rw [hpinned] at hgood'
    have hiff := refused_iff_of_retagged (e := e) hretagged hsilent hgood hgood'
    simpa using hiff

theorem Retagged.akin (h : f.Retagged f') (hsilent : ∀ x ∈ f.site.selectors, x.Silent)
    (hrefuses : ∀ e, f.Refuses e ↔ f'.Refuses e) : f.world.Akin f.site f'.world := by
  obtain ⟨⟨world, rfl⟩, hsame, hlisted, hmembers, hlag⟩ := h
  refine ⟨hsame, hlisted.imp fun listing listing' hl hl' hretagged ↦ ?_, hmembers, hlag⟩
  refine selectedAlike_of_retagged hretagged hsilent fun e ↦ ?_
  have hrefused := hrefuses e
  unfold Refuses at hrefused
  dsimp only at hrefused hl'
  rw [hl, hl'] at hrefused
  simpa using hrefused

theorem coincides_of_paired {R : List String → List ScaleSet → List ScaleSet → Prop}
    {resourceGroup : String} {p p' : Step α}
    (h : Paired (World.Aligned R resourceGroup) Activity.Aligned Eq p p') (hs : Stands t p f)
    (hs' : Stands t p' f') : Coincides t f f' := by
  have haligned : p.1.Aligned R resourceGroup p'.1 := by
    cases h <;> assumption
  constructor
  · rw [hs.outcome, hs'.outcome]
    cases h with
    | waiting => rfl
    | finished _ houtcome => rw [houtcome]
  · rw [hs.world, hs'.world, haligned.registry]
  · rw [hs.world, hs'.world, haligned.pinned]
  · rw [hs.world, hs'.world, haligned.cells]

theorem refrains_of_balks {p : Step α} (h : Balks f.site listing e w p) (hs : Stands t p f) :
    Refrains t e w f := by
  cases h with
  | waiting hw =>
    refine ⟨fun o ho ↦ ?_, hs.world ▸ hw⟩
    cases hs.outcome.symm.trans ho
  | failed hw he =>
    refine ⟨fun o ho ↦ ?_, hs.world ▸ hw⟩
    obtain rfl := Option.some.inj (hs.outcome.symm.trans ho)
    rcases he with rfl | rfl
    · exact Or.inl rfl
    · exact Or.inr rfl

variable [Balance α]

/-- A call to discover automatically on a fleet that refuses what is listed. -/
theorem Refuses.refrains (h : f.Refuses e) (hfresh : f.activity? f.nextTicket = none)
    (hnone : f.outcome? f.nextTicket = none) {during : List Event}
    (hawaits : ∀ e ∈ during, e.Awaits f.nextTicket) :
    Refrains f.nextTicket e f.world ((f.begin .fetchAuto).after during) := by
  obtain ⟨listing, hlisted, hrefused⟩ := h
  have hsite : ((f.begin .fetchAuto).after during).site = f.site :=
    ((f.begin .fetchAuto).site_after during).1.trans (f.site_begin .fetchAuto)
  have hbalks := balks_course hlisted hrefused f.nextTicket during
  rw [← hsite] at hbalks
  exact refrains_of_balks hbalks (hsite ▸ stands_after hfresh hnone .fetchAuto hawaits)

/-- Size tags of pinned scale sets make no difference to an auto discovery as long as the
inventories are refused alike, which they are if neither has a bad pinned scale set. Where an
inventory is refused, the discovery fails, if it ends, and leaves the fleet as it was. -/
theorem blind_to_pinned_tags (hf : f.Reachable) (h : f.Retagged f')
    (hsilent : ∀ x ∈ f.site.selectors, x.Silent) {during : List Event}
    (hawaits : ∀ e ∈ during, e.Awaits f.nextTicket) :
    ((∀ e, f.Refuses e ↔ f'.Refuses e) →
        Coincides f.nextTicket ((f.begin .fetchAuto).after during)
          ((f'.begin .fetchAuto).after during)) ∧
      (∀ e, f.Refuses e →
        Refrains f.nextTicket e f.world ((f.begin .fetchAuto).after during)) ∧
      (∀ e, f'.Refuses e →
        Refrains f.nextTicket e f'.world ((f'.begin .fetchAuto).after during)) ∧
      (f.PinsSized → f'.PinsSized → ∀ e, f.Refuses e ↔ f'.Refuses e) := by
  obtain ⟨hfresh, hnone⟩ := hf.fresh
  refine ⟨fun hrefuses ↦ ?_, fun e he ↦ he.refrains hfresh hnone hawaits, ?_,
    fun hsized hsized' ↦ h.refuses_iff hsilent hsized hsized'⟩
  · have hpaired := paired_course (h.akin hsilent hrefuses) f.nextTicket during
    obtain ⟨⟨world, rfl⟩, -⟩ := h
    have hstands := stands_after hfresh hnone .fetchAuto hawaits
    have hstands' := stands_after (f := { f with world }) hfresh hnone .fetchAuto hawaits
    exact coincides_of_paired hpaired hstands hstands'
  · obtain ⟨⟨world, rfl⟩, -⟩ := h
    exact fun e he ↦ he.refrains hfresh hnone hawaits

/-! ### A pinned scale set -/

def tagSite : Site :=
  ⟨"rg", .ofSeconds 30, .ofSeconds 60, [.selector ⟨.insert .empty "on" "yes"⟩]⟩

def sizedTags (min max : String) : Table String :=
  .insert (.insert (.insert .empty "on" "yes") "min" min) "max" max

/-- Two selected scale sets, of which the first is to be pinned. -/
def tagListing (tags : Table String) : List ScaleSet :=
  [⟨"db", tags, 1⟩, ⟨"web", sizedTags "1" "5", 1⟩]

def tagAccount : Account :=
  Account.empty.setScaleSets "rg" (tagListing .empty)

/-- An explicit fetch of the first scale set, which gets its tags after that. -/
def tagging (tags : Table String) : List Event :=
  [.begin (.fetchExplicit ["1:3:db"]), .account (·.setScaleSets "rg" (tagListing tags))]

def tagFleet (tags : Table String) : Fleet Rat :=
  (fresh tagSite (.account tagAccount) .empty none).after (tagging tags)

theorem reachable_tagFleet (tags : Table String) : (tagFleet tags).Reachable :=
  ⟨tagSite, .account tagAccount, .empty, none, tagging tags, rfl⟩

theorem silent_tagSite : ∀ x ∈ tagSite.selectors, x.Silent := by
  intro x hx
  obtain rfl := List.mem_singleton.mp hx
  exact ⟨by decide +kernel, by decide +kernel⟩

theorem answer_tagFleet (tags : Table String) (q : Query) :
    (tagFleet tags).world.answer "rg" q =
      (Account.empty.setScaleSets "rg" (tagListing tags)).lookUp "rg" q := by
  cases q <;> rfl

/-- Members are listed under the same names, whatever the tags. -/
theorem lookUp_members_tagListing (tags : Table String) (name : String) :
    (Account.empty.setScaleSets "rg" (tagListing tags)).lookUp "rg" (.members name) =
      if name = "db" ∨ name = "web" then .ok [] else .error (.scaleSetNotFound "rg" name) := by
  have hlisted : (Account.empty.setScaleSets "rg" (tagListing tags)).inGroup "rg" =
      tagListing tags :=
    rfl
  unfold Account.lookUp Account.find
  dsimp only
  rw [hlisted]
  unfold tagListing
  by_cases hdb : "db" = name
  · subst hdb
    rfl
  · by_cases hweb : "web" = name
    · subst hweb
      rfl
    · simp [hdb, hweb, eq_comm (a := name), Except.map]

theorem retagged_tagFleet {tags tags' : Table String}
    (htags : ∀ tag, "min" ≠ tag → "max" ≠ tag → tags'.get? tag = tags.get? tag) :
    (tagFleet tags).Retagged (tagFleet tags') := by
  have hpins : (tagFleet tags).world.pinned = [Text.lower "db"] := rfl
  have hpinned : Text.lower "db" ∈ (tagFleet tags).world.pinned := by simp [hpins]
  refine ⟨⟨_, rfl⟩, ⟨_, _, _, _, rfl⟩, ?_, fun name ↦ ?_, fun q ↦ rfl⟩
  · show Matched _ ((tagFleet tags).world.answer "rg" .scaleSets)
      ((tagFleet tags').world.answer "rg" .scaleSets)
    rw [answer_tagFleet, answer_tagFleet]
    refine .ok (.cons ⟨rfl, rfl, fun tag ↦ ?_⟩ (.cons ⟨rfl, rfl, fun tag ↦ Or.inl rfl⟩ .nil))
    by_cases hmin : "min" = tag
    · exact Or.inr ⟨hpinned, Or.inl hmin.symm⟩
    · by_cases hmax : "max" = tag
      · exact Or.inr ⟨hpinned, Or.inr hmax.symm⟩
      · exact Or.inl (htags tag hmin hmax)
  · show (tagFleet tags').world.answer "rg" (.members name) =
      (tagFleet tags).world.answer "rg" (.members name)
    rw [answer_tagFleet, answer_tagFleet, lookUp_members_tagListing, lookUp_members_tagListing]

theorem pinsSized_tagFleet {tags : Table String} {b : Bounds}
    (hb : (⟨"db", tags, 1⟩ : ScaleSet).Sized b) : (tagFleet tags).PinsSized := by
  intro listing hlisted
  obtain rfl : tagListing tags = listing :=
    Except.ok.inj ((answer_tagFleet tags .scaleSets).symm.trans hlisted)
  intro s hs hselected hpinned
  rcases List.mem_cons.mp hs with rfl | hs
  · exact ⟨b, hb⟩
  · obtain rfl := List.mem_singleton.mp hs
    exact ⟨⟨1, 5⟩, sizeBounds_eq_ok_iff.mp rfl⟩

theorem blind_to_pinned_tags_of_db :
    Coincides 1 ((tagFleet (sizedTags "0" "4")).begin .fetchAuto)
        ((tagFleet (sizedTags "7" "9")).begin .fetchAuto) ∧
      (((tagFleet (sizedTags "7" "9")).begin .fetchAuto).outcome? 1).any Outcome.isDone = true ∧
      (((tagFleet (sizedTags "7" "9")).begin .fetchAuto).world.registry.groups.map fun g ↦
        (g.name, g.bounds)) = [("db", ⟨1, 3⟩), ("web", ⟨1, 5⟩)] := by
  have hretagged : (tagFleet (sizedTags "0" "4")).Retagged (tagFleet (sizedTags "7" "9")) :=
    retagged_tagFleet fun tag hmin hmax ↦ by simp [sizedTags, Table.get?_insert, hmin, hmax]
  have hawaits :
      ∀ e ∈ ([] : List Event), e.Awaits (tagFleet (sizedTags "0" "4")).nextTicket := by simp
  obtain ⟨hsame, -, -, hiff⟩ :=
    blind_to_pinned_tags (reachable_tagFleet (sizedTags "0" "4")) hretagged
    silent_tagSite hawaits
  refine ⟨hsame (hiff ?_ ?_), by decide +kernel, by decide +kernel⟩
  · exact pinsSized_tagFleet (b := ⟨0, 4⟩) (sizeBounds_eq_ok_iff.mp rfl)
  · exact pinsSized_tagFleet (b := ⟨7, 9⟩) (sizeBounds_eq_ok_iff.mp rfl)

/-- A pinned scale set without size tags fails the discovery, which succeeds if it has them. -/
theorem refused_by_pinned_tags :
    ¬ ∀ (site : Site) (cloud : Cloud) (files : Files) (events : List Event) (f f' : Fleet Rat),
      (∀ e ∈ events, e.Indirect) → f = (fresh site cloud files none).after events → f.Retagged f' →
      (∀ x ∈ f.site.selectors, x.Silent) → ∀ o o',
        (f.begin .fetchAuto).outcome? f.nextTicket = some o →
        (f'.begin .fetchAuto).outcome? f'.nextTicket = some o' → o' = o := by
  intro h
  have hretagged : (tagFleet (sizedTags "0" "4")).Retagged (tagFleet (.insert .empty "on" "yes")) :=
    retagged_tagFleet fun tag hmin hmax ↦ by simp [sizedTags, Table.get?_insert, hmin, hmax]
  have hdone : (((tagFleet (sizedTags "0" "4")).begin .fetchAuto).outcome? 1).any
      Outcome.isDone = true := by
    decide +kernel
  have hfailed : (((tagFleet (.insert .empty "on" "yes")).begin .fetchAuto).outcome? 1).any
      Outcome.isFailed = true := by
    decide +kernel
  obtain ⟨failure, hfailure, hfails⟩ := (Option.any_eq_true _ _).mp hfailed
  have hsame := h tagSite (.account tagAccount) .empty (tagging (sizedTags "0" "4")) _ _
    (by simp [tagging, Event.Indirect]) rfl hretagged silent_tagSite _ _
    (Outcome.eq_done hdone) hfailure
  subst hsame
  cases hfails

end NodeFleet.Fleet
