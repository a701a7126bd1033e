import NodeFleet.Proofs.TokenLines
/-!
The member listings of a plan in line for tokens. All of them ask at the same moments. Of those that
ask, the first ones get the tokens that there are; the next one is refused, and the refusal is firm,
so all that come after it are refused with the same wait. However many they are, they are served as
one alone would be that asked for all tokens one after the other.
-/

set_option autoImplicit false
set_option relaxedAutoImplicit false

namespace NodeFleet.Fleet

open NodeFleet.Discovery NodeFleet.Number NodeFleet.Quota

namespace World

variable {α : Type}

/-- All member listings that are answered are answered with members, of which a scale set that is
gone has none. -/
def Forthcoming (w : World α) (site : Site) : Prop :=
  ∀ name, ∃ members, membersOrNone (w.reply site (.members name)) = .ok members

/-- What is to be listed as it would be listed now. -/
def inventory (w : World α) (site : Site) : Inventory :=
  ⟨w.reply site .scaleSets, fun name ↦ w.reply site (.members name)⟩

/-- The listings of groups that have all been answered. -/
def answered (w : World α) (site : Site) (groups : List NodeGroup) : List Listing :=
  groups.map fun g ↦ .arrived (w.reply site (.members g.name))

/-- The listings of groups the first of which have been answered, while the others ask together. -/
def inLine (w : World α) (site : Site) (first rest : List NodeGroup) (i : Inquiry) : List Listing :=
  w.answered site first ++ rest.map fun _ ↦ .waiting i

variable {w w' : World α} {site : Site}

theorem answered_append_inLine (w : World α) (site : Site) (first next rest : List NodeGroup)
    (i : Inquiry) :
    w.answered site first ++ w.inLine site next rest i = w.inLine site (first ++ next) rest i := by
  unfold inLine answered
  rw [List.map_append, List.append_assoc]

theorem Queried.forthcoming (h : Queried w w') (hf : w.Forthcoming site) : w'.Forthcoming site := by
  intro name
  rw [h.reply]
  exact hf name

theorem Queried.answered (h : Queried w w') (groups : List NodeGroup) :
    w'.answered site groups = w.answered site groups := by
  unfold World.answered
  simp only [h.reply]

theorem Queried.inLine (h : Queried w w') (first rest : List NodeGroup) (i : Inquiry) :
    w'.inLine site first rest i = w.inLine site first rest i :=
  congrArg (· ++ _) (h.answered first)

theorem Queried.inventory (h : Queried w w') (site : Site) :
    w'.inventory site = w.inventory site := by
  unfold World.inventory
  simp only [h.reply]

namespace Forthcoming

variable (hf : w.Forthcoming site)

include hf

theorem failure?_arrived (name : String) :
    (Listing.arrived (w.reply site (.members name))).failure? = none := by
  obtain ⟨members, hmembers⟩ := hf name
  dsimp only [Listing.failure?]
  rw [hmembers]

theorem findSome?_answered (groups : List NodeGroup) :
    (w.answered site groups).findSome? Listing.failure? = none := by
  rw [List.findSome?_eq_none_iff]
  intro l hl
  obtain ⟨g, -, rfl⟩ := List.mem_map.mp hl
  exact hf.failure?_arrived g.name

theorem findSome?_inLine (first rest : List NodeGroup) (i : Inquiry) :
    (w.inLine site first rest i).findSome? Listing.failure? = none := by
  unfold inLine
  rw [List.findSome?_append, hf.findSome?_answered, Option.none_or, List.findSome?_eq_none_iff]
  intro l hl
  obtain ⟨g, -, rfl⟩ := List.mem_map.mp hl
  rfl

/-- Listings that are all answered give what a cycle gathers that runs alone. -/
theorem gathered_answered (groups : List NodeGroup) :
    ∃ members, gathered? groups (w.answered site groups) = some members ∧
      (w.inventory site).gather groups = .ok members := by
  have hshows : List.Forall₂ (w.inventory site).Shows groups (w.answered site groups) := by
    unfold World.answered
    rw [List.forall₂_map_right_iff, List.forall₂_same]
    intro g _
    rfl
  have hall : ∃ members, gathered? groups (w.answered site groups) = some members := by
    clear hshows
    induction groups with
    | nil => exact ⟨[], rfl⟩
    | cons g groups ih =>
      obtain ⟨rest, hrest⟩ := ih
      obtain ⟨members, hmembers⟩ := hf g.name
      refine ⟨(g.name, members) :: rest, ?_⟩
      unfold gathered? World.answered at hrest ⊢
      rw [List.map_cons, List.zip_cons_cons, List.mapM_cons, hrest]
      dsimp only [Listing.members?]
      rw [hmembers]
      rfl
  obtain ⟨members, hgathered⟩ := hall
  exact ⟨members, hgathered, gather_of_gathered hshows hgathered⟩

end Forthcoming

/-- As long as one listing waits, the members are not gathered. -/
theorem gathered?_inLine (w : World α) (site : Site) (first : List NodeGroup)
    {rest : List NodeGroup} (hleft : rest ≠ []) (i : Inquiry) :
    gathered? (first ++ rest) (w.inLine site first rest i) = none := by
  obtain ⟨g, rest, rfl⟩ := List.exists_cons_of_ne_nil hleft
  unfold gathered?
  induction first with
  | nil =>
    have hzip : ([] ++ g :: rest).zip (w.inLine site [] (g :: rest) i) =
        (g, .waiting i) :: rest.zip (rest.map fun _ ↦ .waiting i) := rfl
    rw [hzip, List.mapM_cons]
    rfl
  | cons g' first ih =>
    have hzip : (g' :: first ++ g :: rest).zip (w.inLine site (g' :: first) (g :: rest) i) =
        (g', .arrived (w.reply site (.members g'.name))) ::
          (first ++ g :: rest).zip (w.inLine site first (g :: rest) i) := rfl
    rw [hzip, List.mapM_cons, ih]
    dsimp only [Listing.members?]
    cases (membersOrNone (w.reply site (.members g'.name))).toOption with
    | none => rfl
    | some members => rfl

theorem earlier_self (m : Option Nat) : earlier m m = m := by
  cases m with
  | none => rfl
  | some m => exact congrArg some (Nat.min_self m)

/-- A cycle waits for what its unanswered listings wait for. -/
theorem wake_inLine (w : World α) (site : Site) (b : Brief) (plan : Plan)
    (first : List NodeGroup) {rest : List NodeGroup} (hleft : rest ≠ []) (i : Inquiry) :
    (CyclePhase.indexing b plan (w.inLine site first rest i)).wake = i.wake := by
  have hanswered : ((w.answered site first).map Listing.wake).foldl earlier none = none := by
    induction first with
    | nil => rfl
    | cons g first ih => exact ih
  have hwaiting : ∀ rest : List NodeGroup,
      ((rest.map fun _ ↦ Listing.waiting i).map Listing.wake).foldl earlier i.wake = i.wake := by
    intro rest
    induction rest with
    | nil => rfl
    | cons g rest ih =>
      rw [List.map_cons, List.map_cons, List.foldl_cons]
      exact (congrArg (List.foldl earlier · _) (earlier_self i.wake)).trans ih
  obtain ⟨g, rest, rfl⟩ := List.exists_cons_of_ne_nil hleft
  dsimp only [CyclePhase.wake, inLine]
  rw [List.map_append, List.foldl_append, hanswered]
  exact hwaiting rest

/-! ### Regular limiters -/

/-- Every limiter is as it is from its first moment on. -/
def Regular (w : World Double) : Prop :=
  ∀ c, (w.limiter c).Regular

end World

variable {w w' : World Double} {site : Site} {q : Query}

namespace World

theorem Drawn.regular (h : Drawn q w w') (hw : w.Regular) : w'.Regular := by
  intro c
  by_cases hc : c = q.category
  · rw [hc, h.limiter]
    exact (hw q.category).take w.now
  · rw [h.others c hc]
    exact hw c

theorem regular_of_eq (hquotas : w'.quotas = w.quotas) (hw : w.Regular) : w'.Regular := by
  intro c
  unfold limiter
  rw [hquotas]
  exact hw c

theorem borne_regular : Borne fun w w' : World Double ↦ w.Regular → w'.Regular where
  refl _ hw := hw
  trans h h' hw := h' (h hw)
  attempt w resourceGroup q hw := (w.drawn_attempt resourceGroup q).regular hw
  newGroup _ _ _ hw := regular_of_eq rfl hw
  books _ _ _ _ _ _ hw := regular_of_eq rfl hw

end World

/-- Limiters are regular from the first moment of a fleet on, whatever happens. -/
theorem regular_step {f : Fleet Double} (hf : f.world.Regular) (e : Event) :
    (f.step e).world.Regular :=
  World.borne_regular.step f (fun _ _ _ hw ↦ World.regular_of_eq rfl hw)
    (fun _ _ _ _ hw ↦ World.regular_of_eq rfl hw) (fun _ _ hw ↦ World.regular_of_eq rfl hw) hf

theorem regular_after {f : Fleet Double} (hf : f.world.Regular) (events : List Event) :
    (f.after events).world.Regular := by
  induction events generalizing f with
  | nil => exact hf
  | cons e rest ih => exact ih (regular_step hf e)

theorem regular_fresh (site : Site) (cloud : Cloud) (files : Files) (limits : Limits) :
    (fresh site cloud files (some (.ofLimits limits 0)) : Fleet Double).world.Regular := by
  intro c
  cases c with
  | virtualMachineScaleSet => exact Limiter.regular_new _ _ _
  | virtualMachine => exact Limiter.regular_new _ _ _
  | _ => exact fun b hb ↦ by cases hb

/-! ### Lines -/

namespace World

section

variable {α : Type} [Balance α] {w w' : World α} {g : NodeGroup} {l l' : Listing}

theorem pollListings_of_passing (h : w.pollMembers site g l = (w', l')) (hl : l'.failure? = none)
    (groups : List NodeGroup) (listings : List Listing) :
    w.pollListings site (g :: groups) (l :: listings) =
      ((w'.pollListings site groups listings).1,
        l' :: (w'.pollListings site groups listings).2) := by
  conv_lhs => unfold pollListings
  rw [h]
  dsimp only
  exact if_neg (by rw [hl]; exact Bool.false_ne_true)

theorem pollListings_of_failing (h : w.pollMembers site g l = (w', l')) {e : Error}
    (hl : l'.failure? = some e) (groups : List NodeGroup) (listings : List Listing) :
    w.pollListings site (g :: groups) (l :: listings) = (w', l' :: listings) := by
  conv_lhs => unfold pollListings
  rw [h]
  dsimp only
  exact if_pos (by rw [hl]; rfl)

theorem pollMembers_of_waiting {i i' : Inquiry}
    (h : w.pollInquiry site (.members g.name) i = (w', .waiting i')) :
    w.pollMembers site g (.waiting i) = (w', .waiting i') := by
  dsimp only [pollMembers]
  rw [h]

theorem pollMembers_of_finished {i : Inquiry} {answer : Except Error (List Member)}
    (h : w.pollInquiry site (.members g.name) i = (w', .finished answer)) :
    w.pollMembers site g (.waiting i) = (w', .arrived answer) := by
  dsimp only [pollMembers]
  rw [h]

/-- Listings that have been answered are passed by. -/
theorem pollListings_inLine (hf : w.Forthcoming site) (first rest : List NodeGroup) (i : Inquiry) :
    w.pollListings site (first ++ rest) (w.inLine site first rest i) =
      ((w.pollListings site rest (rest.map fun _ ↦ .waiting i)).1,
        w.answered site first ++ (w.pollListings site rest (rest.map fun _ ↦ .waiting i)).2) := by
  induction first with
  | nil => rfl
  | cons g first ih =>
    have hpassed : w.pollMembers site g (.arrived (w.reply site (.members g.name))) =
        (w, .arrived (w.reply site (.members g.name))) := rfl
    refine (pollListings_of_passing hpassed (hf.failure?_arrived g.name) (first ++ rest)
      (w.inLine site first rest i)).trans ?_
    rw [ih]
    rfl

end

variable {i : Inquiry}

/-- After a refusal the others of the line are refused as well, with the same wait. -/
theorem pollListings_of_refused (site : Site) {wait : Duration} (hp : w.Prompt)
    (hdue : i.phase.IsDue w.now)
    (hrefused : (w.limiter .virtualMachine).take w.now .read =
      (w.limiter .virtualMachine, some wait)) (hearly : w.now < i.expires)
    (groups : List NodeGroup) :
    Queried w (w.pollListings site groups (groups.map fun _ ↦ .waiting i)).1 ∧
      (w.pollListings site groups (groups.map fun _ ↦ .waiting i)).1.limiter .virtualMachine =
        w.limiter .virtualMachine ∧
      (w.pollListings site groups (groups.map fun _ ↦ .waiting i)).2 = groups.map fun _ ↦
        .waiting { i with phase := .throttled (wakeAfter w.now wait) } := by
  induction groups generalizing w with
  | nil => exact ⟨.refl w, rfl, rfl⟩
  | cons g groups ih =>
    obtain ⟨hdrawn, hpoll⟩ := pollInquiry_of_due site (.members g.name) hp hdue
    rcases hpolled : w.pollInquiry site (.members g.name) i with ⟨w', outcome⟩
    rw [hpolled] at hdrawn hpoll
    have hlimiter : w'.limiter .virtualMachine = w.limiter .virtualMachine :=
      hdrawn.limiter.trans (congrArg Prod.fst hrefused)
    have hnow : w'.now = w.now := hdrawn.queried.now
    obtain rfl : outcome = .waiting { i with phase := .throttled (wakeAfter w.now wait) } := by
      rw [show ((w.limiter (Query.members g.name).category).take w.now .read).2 = some wait from
        congrArg Prod.snd hrefused] at hpoll
      exact hpoll.trans (if_neg hearly.not_ge)
    obtain ⟨hqueried, hsame, hlistings⟩ := ih (w := w') (hdrawn.queried.prompt hp)
      (hnow.symm ▸ hdue) (by rw [hnow, hlimiter]; exact hrefused) (hnow.symm ▸ hearly)
    rw [List.map_cons, List.map_cons,
      pollListings_of_passing (pollMembers_of_waiting hpolled) rfl, hlistings, hnow]
    exact ⟨hdrawn.queried.trans hqueried, hsame.trans hlimiter, rfl⟩

/-- What becomes of a line whose groups ask for tokens together, up to the first that gives up. -/
inductive Attended (w : World Double) (site : Site) (expires : Nat) (groups : List NodeGroup) :
    World Double × List Listing → Prop
  | served {w' : World Double}
      (serves : (w.limiter .virtualMachine).Serves .read w.now groups.length w.now) :
      Attended w site expires groups (w', w.answered site groups)
  | waits {w' : World Double} (first rest : List NodeGroup) {wake : Nat}
      (split : groups = first ++ rest) (left : rest ≠ []) (early : w.now < expires)
      (later : w.now < wake)
      (serves : ∀ t, (w.limiter .virtualMachine).Serves .read w.now groups.length t ↔
        (w'.limiter .virtualMachine).Serves .read wake rest.length t) :
      Attended w site expires groups (w', w.inLine site first rest ⟨expires, .throttled wake⟩)
  | expired {w' : World Double} {listings : List Listing} (g : NodeGroup) (late : expires ≤ w.now)
      (failure : listings.findSome? Listing.failure? =
        some (.deadlineExceeded (.members g.name) site.inventoryTimeout))
      (serves : ∀ t, (w.limiter .virtualMachine).Serves .read w.now groups.length t → w.now < t) :
      Attended w site expires groups (w', listings)

/-- A group that is answered goes before the rest of the line. -/
theorem Attended.cons {w₁ : World Double} {expires : Nat} {g : NodeGroup}
    {groups : List NodeGroup} {r : World Double × List Listing} (hf : w.Forthcoming site)
    (hq : Queried w w₁)
    (hserves : ∀ n t, (w.limiter .virtualMachine).Serves .read w.now (n + 1) t ↔
      (w₁.limiter .virtualMachine).Serves .read w.now n t)
    (h : Attended w₁ site expires groups r) :
    Attended w site expires (g :: groups)
      (r.1, .arrived (w.reply site (.members g.name)) :: r.2) := by
  have hnow : w₁.now = w.now := hq.now
  cases h with
  | served serves =>
    rw [hnow] at serves
    rw [hq.answered]
    exact .served ((hserves _ _).mpr serves)
  | @waits w' first rest wake split left early later serves =>
    rw [hnow] at early later serves
    rw [hq.inLine]
    exact .waits (g :: first) rest (congrArg (g :: ·) split) left early later fun t ↦
      (hserves _ t).trans (serves t)
  | expired g' late failure serves =>
    rw [hnow] at late serves
    refine .expired g' late ?_ fun t ht ↦ serves t ((hserves _ t).mp ht)
    rw [List.findSome?_cons, hf.failure?_arrived]
    exact failure

theorem attended_pollListings (hr : w.Regular) (hp : w.Prompt) (hf : w.Forthcoming site)
    (hdue : i.phase.IsDue w.now) (groups : List NodeGroup) :
    Queried w (w.pollListings site groups (groups.map fun _ ↦ .waiting i)).1 ∧
      Attended w site i.expires groups
        (w.pollListings site groups (groups.map fun _ ↦ .waiting i)) := by
  induction groups generalizing w with
  | nil => exact ⟨.refl w, .served (.none _ _)⟩
  | cons g groups ih =>
    obtain ⟨hdrawn, hrequested⟩ :=
      requested_pollInquiry site (.members g.name) hp hdue
    generalize hpolled : w.pollInquiry site (.members g.name) i = polled at *
    have hqueried := hdrawn.queried
    rw [List.map_cons]
    cases hrequested with
    | @served w' taken serves =>
      have hnow : w'.now = w.now := hqueried.now
      obtain ⟨hrest, hattended⟩ := ih (w := w') (hdrawn.regular hr) (hqueried.prompt hp)
        (hqueried.forthcoming hf) (hnow.symm ▸ hdue)
      rw [pollListings_of_passing (pollMembers_of_finished hpolled) (hf.failure?_arrived g.name)]
      exact ⟨hqueried.trans hrest, hattended.cons hf hqueried serves⟩
    | @expired w' late serves =>
      rw [pollListings_of_failing (pollMembers_of_finished hpolled) rfl]
      exact ⟨hqueried, .expired g late rfl (serves _)⟩
    | @waits w' wait wake refused wakes early later serves =>
      have hnow : w'.now = w.now := hqueried.now
      have hlimiter : w'.limiter .virtualMachine =
          ((w.limiter .virtualMachine).take w.now .read).1 := hdrawn.limiter
      have hagain : (w'.limiter .virtualMachine).take w'.now .read =
          (w'.limiter .virtualMachine, some wait) := by
        rw [hnow, hlimiter]
        exact (hr .virtualMachine).take_take refused
      obtain ⟨hrest, hsame, hlistings⟩ := pollListings_of_refused site
        (hqueried.prompt hp) (hnow.symm ▸ hdue) hagain (hnow.symm ▸ early) groups
      rw [pollListings_of_passing (pollMembers_of_waiting hpolled) rfl, hlistings, hnow, wakes]
      refine ⟨hqueried.trans hrest, .waits [] (g :: groups) rfl
        (List.cons_ne_nil g groups) early later fun t ↦ ?_⟩
      rw [hsame]
      exact serves _ t

/-- A line that may not ask for tokens yet when its deadline passes gives up. -/
theorem pollListings_of_late (site : Site) {wake : Nat} (hphase : i.phase = .throttled wake)
    (h : w.now < wake) (hlate : i.expires ≤ w.now) {groups : List NodeGroup} (hleft : groups ≠ []) :
    ∃ (g : NodeGroup) (listings : List Listing),
      w.pollListings site groups (groups.map fun _ ↦ .waiting i) = (w, listings) ∧
      listings.findSome? Listing.failure? =
        some (.deadlineExceeded (.members g.name) site.inventoryTimeout) := by
  obtain ⟨g, rest, rfl⟩ := List.exists_cons_of_ne_nil hleft
  have hpolled : w.pollInquiry site (.members g.name) i =
      (w, .finished (.error (.deadlineExceeded (.members g.name) site.inventoryTimeout))) :=
    (pollInquiry_of_early site _ hphase h).trans (congrArg (Prod.mk w) (if_pos hlate))
  exact ⟨g, _, pollListings_of_failing (pollMembers_of_finished hpolled) rfl _ _, rfl⟩

end World

end NodeFleet.Fleet
