import NodeFleet.Proofs.Calls
import NodeFleet.Proofs.MemberIndex
import NodeFleet.Proofs.SizeCells
/-!
Groups and the scale sets of their names. Groups are told apart whatever the case of their names,
but a client looks a scale set up by its very name. So a group stands for the scale set of its name
just when it is spelled alike: then its size is the capacity of the scale set, and the members are
indexed. A group that is spelled in another way counts as one whose scale set is gone.
-/

set_option autoImplicit false
set_option relaxedAutoImplicit false

namespace NodeFleet.Fleet

open NodeFleet.Discovery NodeFleet.Quota

variable {α : Type}

/-! ### Looking up by name -/

section

variable {β : Type} {name : β → String} {l : List β} {x : β}

theorem eq_of_sameName (hd : (l.map fun y ↦ Text.lower (name y)).Nodup) {y : β} (hx : x ∈ l)
    (hy : y ∈ l) (h : Text.SameName (name x) (name y)) : x = y :=
  List.inj_on_of_nodup_map hd hx hy h

/-- Among names that are distinct whatever their case, each finds its own. -/
theorem find?_name_self (hd : (l.map fun y ↦ Text.lower (name y)).Nodup) (hx : x ∈ l) :
    l.find? (fun y ↦ name y = name x) = some x := by
  cases hfind : l.find? fun y ↦ decide (name y = name x) with
  | none => exact absurd (decide_eq_true rfl) (List.find?_eq_none.mp hfind x hx)
  | some y =>
    have hname : name y = name x := by simpa using List.find?_some hfind
    have hsame := eq_of_sameName hd (List.mem_of_find?_eq_some hfind) hx (congrArg Text.lower hname)
    rw [hsame]

/-- Another spelling of a name finds nothing. -/
theorem find?_name_other (hd : (l.map fun y ↦ Text.lower (name y)).Nodup) (hx : x ∈ l)
    {other : String} (hsame : Text.SameName (name x) other) (hne : other ≠ name x) :
    l.find? (fun y ↦ name y = other) = none := by
  rw [List.find?_eq_none]
  intro y hy hname
  have hname : name y = other := of_decide_eq_true hname
  have h : Text.SameName (name x) (name y) := hname ▸ hsame
  exact hne (hname.symm.trans (congrArg name (eq_of_sameName hd hx hy h).symm))

end

theorem record_of_records {d : InventoryDirectory} {files : Files} {resourceGroup name : String}
    {records : List InventoryRecord} (h : d.records files resourceGroup = .ok records) :
    d.record files resourceGroup name =
      match records.find? fun r ↦ r.scaleSet.name = name with
      | some r => .ok r
      | none => .error (.scaleSetNotFound resourceGroup name) := by
  unfold InventoryDirectory.record
  rw [h]
  rfl

namespace World

/-- Whether the client lists the scale set now, among names that are distinct whatever their case.
-/
def Stocks (w : World α) (resourceGroup : String) (s : ScaleSet) : Prop :=
  ∃ listing, w.answer resourceGroup .scaleSets = .ok listing ∧ s ∈ listing ∧
    (listing.map fun s ↦ Text.lower s.name).Nodup

/-- Whether the line passes on whatever the client answers. -/
def Passes (w : World α) : Prop :=
  ∀ resourceGroup q, w.line.instead resourceGroup q = none

variable {w : World α} {resourceGroup : String} {s : ScaleSet}

/-- By name, a client answers about the first scale set of that very name that it lists. -/
theorem answer_named (hp : w.Passes) {listing : List ScaleSet}
    (h : w.answer resourceGroup .scaleSets = .ok listing) (name : String) :
    (∃ s, listing.find? (fun s ↦ s.name = name) = some s ∧
      w.answer resourceGroup (.scaleSet name) = .ok s ∧
        ∃ members, w.answer resourceGroup (.members name) = .ok members) ∨
    (listing.find? (fun s ↦ s.name = name) = none ∧
      w.answer resourceGroup (.scaleSet name) = .error (.scaleSetNotFound resourceGroup name) ∧
        w.answer resourceGroup (.members name) =
          .error (.scaleSetNotFound resourceGroup name)) := by
  unfold answer at h ⊢
  rw [hp] at h
  rw [hp, hp]
  cases hcloud : w.cloud with
  | account a =>
    rw [hcloud] at h
    dsimp only [Option.getD_none, Account.answer] at h ⊢
    cases hfailure : a.failure with
    | some reason =>
      rw [hfailure] at h
      cases h
    | none =>
      rw [hfailure] at h
      obtain rfl : a.inGroup resourceGroup = listing := Except.ok.inj h
      dsimp only [Account.lookUp, Account.find]
      cases (a.inGroup resourceGroup).find? fun s ↦ decide (s.name = name) with
      | none => exact Or.inr ⟨rfl, rfl, rfl⟩
      | some s => exact Or.inl ⟨s, rfl, rfl, _, rfl⟩
  | directory d =>
    rw [hcloud] at h
    dsimp only [Option.getD_none, InventoryDirectory.answer] at h ⊢
    cases hrecords : d.records w.files resourceGroup with
    | error e =>
      rw [hrecords] at h
      cases h
    | ok records =>
      rw [hrecords] at h
      obtain rfl : records.map InventoryRecord.scaleSet = listing := Except.ok.inj h
      have hfound : (records.map InventoryRecord.scaleSet).find? (fun s ↦ decide (s.name = name)) =
          (records.find? fun r ↦ decide (r.scaleSet.name = name)).map InventoryRecord.scaleSet :=
        List.find?_map
      rw [hfound, record_of_records hrecords]
      cases records.find? fun r ↦ decide (r.scaleSet.name = name) with
      | none => exact Or.inr ⟨rfl, rfl, rfl⟩
      | some r => exact Or.inl ⟨r.scaleSet, rfl, rfl, _, rfl⟩

/-- Asked by its very name, a client answers about a scale set that it lists. -/
theorem Stocks.answers (h : w.Stocks resourceGroup s) (hp : w.Passes) :
    w.answer resourceGroup (.scaleSet s.name) = .ok s ∧
      ∃ members, w.answer resourceGroup (.members s.name) = .ok members := by
  obtain ⟨listing, hlisting, hs, hd⟩ := h
  rcases answer_named hp hlisting s.name with ⟨s', hfind, hanswer, hmembers⟩ | ⟨hfind, -⟩
  · rw [find?_name_self hd hs] at hfind
    obtain rfl := Option.some.inj hfind
    exact ⟨hanswer, hmembers⟩
  · rw [find?_name_self hd hs] at hfind
    cases hfind

/-- Asked by another spelling of the name, it knows no such scale set. -/
theorem Stocks.misses (h : w.Stocks resourceGroup s) (hp : w.Passes) {name : String}
    (hsame : Text.SameName s.name name) (hne : name ≠ s.name) :
    w.answer resourceGroup (.scaleSet name) = .error (.scaleSetNotFound resourceGroup name) ∧
      w.answer resourceGroup (.members name) = .error (.scaleSetNotFound resourceGroup name) := by
  obtain ⟨listing, hlisting, hs, hd⟩ := h
  rcases answer_named hp hlisting name with ⟨s', hfind, -⟩ | ⟨-, hmissed⟩
  · rw [find?_name_other hd hs hsame hne] at hfind
    cases hfind
  · exact hmissed

end World

/-! ### Sizes -/

variable [Balance α] {f : Fleet α} {g : NodeGroup} {t : Ticket}

/-- The steps of a request for the size of a group. -/
inductive Sizes (f : Fleet α) (g : NodeGroup) : Ticket → Event → Prop
  | begin : Sizes f g f.nextTicket (.begin (.size g))
  | poll {t : Ticket} {phase : SizePhase} (h : f.activity? t = some (.sizing g phase)) :
      Sizes f g t (.poll t)

theorem Sizes.outcome {events : List Event} (ht : f.Tracked events) {e : Event}
    (h : f.Sizes g t e) {outcome : Outcome} (ho : (f.step e).outcome? t = some outcome) :
    (∃ n, f.world.knownSize? g = some n ∧ outcome = .size n) ∨
      ∃ r, f.world.Tells f.site (.scaleSet g.name) r ∧
        outcome = World.ofResult .size (r.map ScaleSet.capacity) := by
  have hresult : ∃ w : World α, World.Inquired f.world w ∧ w.knownSize? g = f.world.knownSize? g ∧
      ∃ phase, (World.wrapSize g (w.pollSize f.site g t phase)).2 = .finished outcome := by
    cases h with
    | begin =>
      have hnone := outcome?_eq_none_of_le ht (Nat.le_refl f.nextTicket)
      rcases outcome?_step hnone ho with ⟨op, he, -, hfinished⟩ | ⟨a, he, -⟩ | ⟨r, he, -⟩
      · obtain rfl := Event.begin.inj he
        exact ⟨f.world.joinLine g f.nextTicket, f.world.inquired_cells _,
          f.world.knownSize?_joinLine g _, .queued, hfinished⟩
      · cases he
      · cases he
    | @poll t phase hactivity =>
      have hnone : f.outcome? t = none := ht.apart _ (mem_of_activity? hactivity)
      rcases outcome?_step hnone ho with ⟨op, he, -⟩ | ⟨a, -, ha, hfinished⟩ | ⟨r, he, -⟩
      · cases he
      · obtain rfl := Option.some.inj (hactivity.symm.trans ha)
        exact ⟨f.world, .refl f.world, rfl, phase, hfinished⟩
      · cases he
  obtain ⟨w, hinquired, hsize, phase, hfinished⟩ := hresult
  obtain ⟨result, hpoll, rfl⟩ := World.finished_of_wrapSize hfinished
  rcases World.result_of_pollSize hpoll with ⟨n, hknown, rfl⟩ | ⟨r, htells, rfl⟩
  · exact Or.inl ⟨n, hsize ▸ hknown, rfl⟩
  · exact Or.inr ⟨r, hinquired.tells htells, rfl⟩

/-! ### What is told about a group -/

namespace World

omit [Balance α]

variable {w : World α} {site : Site} {s : ScaleSet}

/-- The size of a group that stands for a scale set. -/
theorem Stocks.size (h : w.Stocks site.resourceGroup s) (hp : w.Passes)
    (hsame : Text.SameName s.name g.name) {r : Except Error ScaleSet}
    (hr : w.Tells site (.scaleSet g.name) r) :
    r = .error (.deadlineExceeded (.scaleSet g.name) site.inventoryTimeout) ∨
      r = if g.name = s.name then .ok s
        else .error (.queryFailed (.scaleSet g.name) site.resourceGroup
          (.scaleSetNotFound site.resourceGroup g.name)) := by
  rcases hr with rfl | rfl
  · refine Or.inr ?_
    split_ifs with hname
    · rw [hname, (h.answers hp).1]
      rfl
    · rw [(h.misses hp hsame hname).1]
      rfl
  · exact Or.inl rfl

/-- The members of a group that stands for a scale set, if the client answers about them. -/
theorem Stocks.members (h : w.Stocks site.resourceGroup s) (hp : w.Passes)
    (hsame : Text.SameName s.name g.name) {r : Except Error (List Member)}
    (hr : w.Tells site (.members g.name) r) :
    r = .error (.deadlineExceeded (.members g.name) site.inventoryTimeout) ∨
      if g.name = s.name then
        ∃ members, w.answer site.resourceGroup (.members s.name) = .ok members ∧ r = .ok members
      else r = .error (.queryFailed (.members g.name) site.resourceGroup
        (.scaleSetNotFound site.resourceGroup g.name)) := by
  rcases hr with rfl | rfl
  · refine Or.inr ?_
    split_ifs with hname
    · obtain ⟨members, hmembers⟩ := (h.answers hp).2
      refine ⟨members, hmembers, ?_⟩
      rw [hname, hmembers]
      rfl
    · rw [(h.misses hp hsame hname).2]
      rfl
  · exact Or.inl rfl

end World

/-- A request for a size, by whether the group is spelled like its scale set. -/
theorem Sizes.backed {events : List Event} (ht : f.Tracked events) (hp : f.world.Passes)
    {e : Event} (h : f.Sizes g t e) {outcome : Outcome}
    (ho : (f.step e).outcome? t = some outcome) {s : ScaleSet}
    (hs : f.world.Stocks f.site.resourceGroup s) (hsame : Text.SameName s.name g.name) :
    (∃ n, f.world.knownSize? g = some n ∧ outcome = .size n) ∨
      outcome = .failed (.deadlineExceeded (.scaleSet g.name) f.site.inventoryTimeout) ∨
      outcome = if g.name = s.name then .size s.capacity
        else .failed (.queryFailed (.scaleSet g.name) f.site.resourceGroup
          (.scaleSetNotFound f.site.resourceGroup g.name)) := by
  rcases h.outcome ht ho with hknown | ⟨r, htells, rfl⟩
  · exact Or.inl hknown
  · refine Or.inr ?_
    rcases hs.size hp hsame htells with rfl | rfl
    · exact Or.inl rfl
    · refine Or.inr ?_
      split_ifs <;> rfl

omit [Balance α] in
/-- The members that a cycle was told a group has, by whether it is spelled like its scale set. -/
theorem Indexed.backed {H : Lore} {x : Turn} {snapshot : Snapshot} (h : Indexed H x snapshot)
    {site : Site} {w : World α} (hp : w.Passes) (hg : g ∈ snapshot.groups)
    {r : Except Error (List Member)} (hlookup : lookup g.name x.told = some r)
    (htells : w.Tells site (.members g.name) r) {s : ScaleSet}
    (hs : w.Stocks site.resourceGroup s) (hsame : Text.SameName s.name g.name) :
    if g.name = s.name then
      ∃ members, w.answer site.resourceGroup (.members s.name) = .ok members ∧
        ∀ m ∈ members, x.Lists g m.id ∧ ∃ owner, snapshot.owner? m.id = some owner
    else ∀ key, snapshot.instances.get? key ≠ some g.name := by
  rcases hs.members hp hsame htells with rfl | hanswer
  · -- a cycle that was not told in time has failed
    rcases h.answers g hg with ⟨members, hlisted⟩ | ⟨query, resourceGroup, set, name, hmissed⟩
    · rw [hlookup] at hlisted
      cases hlisted
    · rw [hlookup] at hmissed
      cases hmissed
  · split_ifs at hanswer ⊢ with hname
    · obtain ⟨members, hmembers, rfl⟩ := hanswer
      refine ⟨members, hmembers, fun m hm ↦ ?_⟩
      have hlists : x.Lists g m.id := ⟨members, hlookup, m, hm, rfl⟩
      exact ⟨hlists, (h.found m.id).mpr ⟨g, hg, hlists⟩⟩
    · exact h.missing g hg ⟨_, _, _, _, hanswer ▸ hlookup⟩

/-! ### Histories -/

/-- How the groups of a fleet stand for the scale sets of their names, at the moments at which the
client is asked about them. -/
structure Backed (f : Fleet α) (events : List Event) : Prop where
  /-- A request for a size gets the size that is known, or runs out of time; otherwise it gets the
  capacity of the scale set that is spelled alike. -/
  size : ∀ before e, before ++ [e] <+: events → ∀ g t, (f.after before).Sizes g t e →
    ∀ outcome, (f.after (before ++ [e])).outcome? t = some outcome →
      ∀ s, (f.after before).world.Stocks f.site.resourceGroup s → Text.SameName s.name g.name →
        (∃ n, (f.after before).world.knownSize? g = some n ∧ outcome = .size n) ∨
        outcome = .failed (.deadlineExceeded (.scaleSet g.name) f.site.inventoryTimeout) ∨
        outcome = if g.name = s.name then .size s.capacity
          else .failed (.queryFailed (.scaleSet g.name) f.site.resourceGroup
            (.scaleSetNotFound f.site.resourceGroup g.name))
  /-- The members that a group is listed with when a cycle succeeds are indexed, if it is spelled
  like its scale set; otherwise none is. -/
  members : ∀ earlier x later, (f.after events).world.journal.turns = earlier ++ x :: later →
    x.result = .ok () → ∀ g ∈ (f.site.snapshotAfter (earlier ++ [x])).groups,
      ∃ before, before <+: events ∧ x.brief.ticket ≤ (f.after before).nextTicket ∧
        ∀ s, (f.after before).world.Stocks f.site.resourceGroup s →
          Text.SameName s.name g.name →
            if g.name = s.name then
              ∃ members, (f.after before).world.answer f.site.resourceGroup (.members s.name) =
                  .ok members ∧
                ∀ m ∈ members, x.Lists g m.id ∧
                  ∃ owner, (f.site.snapshotAfter (earlier ++ [x])).owner? m.id = some owner
            else
              ∀ key, (f.site.snapshotAfter (earlier ++ [x])).instances.get? key ≠ some g.name

variable {events : List Event}

section

variable (site : Site) (cloud : Cloud) (files : Files) (quotas : Option (Quotas α))

/-- As long as every line passes on what the client answers, the answers are the client's. -/
theorem passes_after (he : ∀ e ∈ events, e.Orderly)
    (hlines : ∀ line, .line line ∈ events → ∀ resourceGroup q, line.instead resourceGroup q = none)
    {before : List Event} (hbefore : before <+: events) :
    ((fresh site cloud files quotas).after before).world.Passes := by
  induction before using List.reverseRecOn with
  | nil => exact fun resourceGroup q ↦ rfl
  | append_singleton before e ih =>
    have hearlier : before <+: events := (List.prefix_append _ _).trans hbefore
    have hmem : e ∈ events := hbefore.subset (by simp)
    have hpasses := ih hearlier
    have hstep := (sound_after site cloud files quotas he hearlier).turns_step
      (tells_lore _ hearlier) (he e hmem) (asked_lore site cloud files quotas hbefore)
    rw [after_concat]
    -- nothing else that happens touches the line
    by_cases hline : ∃ line, e = .line line
    · obtain ⟨line, rfl⟩ := hline
      exact hlines line hmem
    · unfold World.Passes
      rw [hstep.2 fun line h ↦ hline ⟨line, h⟩]
      exact hpasses

/-- Whatever happens besides direct writes, a group stands for the scale set of its name just when
it is spelled alike. -/
theorem backed_after (hi : ∀ e ∈ events, e.Indirect)
    (hlines : ∀ line, .line line ∈ events →
      ∀ resourceGroup q, line.instead resourceGroup q = none) :
    Backed (fresh site cloud files quotas) events := by
  have horderly : ∀ e ∈ events, e.Orderly := fun e he ↦ (hi e he).orderly
  have hpasses := fun before (hbefore : before <+: events) ↦
    passes_after site cloud files quotas horderly hlines hbefore
  constructor
  · intro before e hbefore g t hsizes outcome houtcome s hs hsame
    have hearlier : before <+: events := (List.prefix_append _ _).trans hbefore
    have htracked := tracked_after site cloud files quotas before
    rw [after_concat] at houtcome
    have hsite := ((fresh site cloud files quotas).site_after before).1
    rw [← hsite] at hs ⊢
    exact hsizes.backed htracked (hpasses before hearlier) houtcome hs hsame
  · intro earlier x later hturns hr g hg
    obtain ⟨hkept, -, hunwritten⟩ :=
      unwritten_turns site cloud files quotas hi (List.prefix_refl events)
    have hheard := hkept.heard x (by rw [hturns]; simp)
    rw [hturns] at hunwritten
    have hindexed := hunwritten.indexed hheard hr
    -- the moment at which the client was asked about the members of the group
    obtain ⟨r, hlookup⟩ := exists_lookup (hindexed.asked ▸ List.mem_map_of_mem hg)
    obtain ⟨before, hbefore, hticket, htells⟩ := hindexed.heard _ (mem_of_lookup hlookup)
    exact ⟨before, hbefore, hticket, fun s hs hsame ↦
      hindexed.backed (hpasses before hbefore) hg hlookup htells hs hsame⟩

end

/-- A request for the size of a group, under the given ticket. -/
def sizing (g : NodeGroup) (t : Ticket) : List Event :=
  [.begin (.size g), .elapse 10, .poll t]

theorem backed_after_sizing :
    Backed smallFleet (fetched ++ sizing ⟨0, "db", ⟨1, 3⟩, defaultSizePeriod⟩ 1) ∧
      (smallFleet.after (fetched ++ sizing ⟨0, "db", ⟨1, 3⟩, defaultSizePeriod⟩ 1)).outcome? 1 =
        some (.size 1) ∧
      (smallFleet.after fetched).world.Stocks "rg" ⟨"db", .empty, 1⟩ := by
  have hlisted : ⟨"db", .empty, 1⟩ ∈ smallAccount.inGroup "rg" :=
    List.mem_cons_of_mem _ List.mem_cons_self
  refine ⟨?_, rfl, ⟨smallAccount.inGroup "rg", rfl, hlisted, by decide +kernel⟩⟩
  refine backed_after smallSite (.account smallAccount) .empty none ?_ ?_
  · simp [fetched, sizing, Event.Indirect]
  · simp [fetched, sizing]

/-- An explicit fetch of a name in another spelling. -/
def misspelling : List Event :=
  [.begin (.fetchExplicit ["1:3:DB"]), .elapse 10, .poll 0, .elapse 10, .poll 0]

theorem unbacked_of_misspelling :
    ((smallFleet.after misspelling).outcome? 0).any Outcome.isDone = true ∧
      ((smallFleet.after (misspelling ++ sizing ⟨0, "DB", ⟨1, 3⟩, defaultSizePeriod⟩ 1)).outcome?
        1).any Outcome.isFailed = true ∧
      ¬ (∀ g ∈ (smallFleet.after misspelling).world.registry.groups, ∀ s,
        (smallFleet.after misspelling).world.Stocks "rg" s → Text.SameName s.name g.name →
          (smallFleet.after (misspelling ++ sizing g 1)).outcome? 1 = some (.size s.capacity) ∧
            ∀ members, (smallFleet.after misspelling).world.answer "rg" (.members s.name) =
              .ok members → ∀ m ∈ members, ∃ owner,
                (smallFleet.after misspelling).world.registry.owner? m.id = some owner) := by
  refine ⟨by decide +kernel, by decide +kernel, fun h ↦ ?_⟩
  have hgroup : ⟨0, "DB", ⟨1, 3⟩, defaultSizePeriod⟩ ∈
      (smallFleet.after misspelling).world.registry.groups := by
    decide +kernel
  have hlisted : ⟨"db", .empty, 1⟩ ∈ smallAccount.inGroup "rg" :=
    List.mem_cons_of_mem _ List.mem_cons_self
  have hstocks : (smallFleet.after misspelling).world.Stocks "rg" ⟨"db", .empty, 1⟩ :=
    ⟨smallAccount.inGroup "rg", rfl, hlisted, by decide +kernel⟩
  obtain ⟨-, hindexed⟩ := h _ hgroup _ hstocks (by decide +kernel)
  obtain ⟨owner, howner⟩ := hindexed [⟨"/vm/1", "1"⟩] rfl ⟨"/vm/1", "1"⟩ (List.mem_singleton_self _)
  have hnone : (smallFleet.after misspelling).world.registry.owner? "/vm/1" = none := by
    decide +kernel
  rw [hnone] at howner
  cases howner

end NodeFleet.Fleet
