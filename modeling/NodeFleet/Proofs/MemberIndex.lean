import NodeFleet.Proofs.AutoDiscovery
/-!
The member index. A cycle that succeeds leaves an index in which an instance belongs to the last
registered group whose members were listed with it, whatever the case of its id, and to none if no
group's were; whether the index was installed or found to agree with the one before makes no
difference. A call that discovers is done with the success of all its cycles, so that it leaves such
an index.
-/

set_option autoImplicit false
set_option relaxedAutoImplicit false

namespace NodeFleet

open NodeFleet.Discovery

/-! ### Indexing listings -/

theorem get?_foldl_members (name key : String) (members : List Member) (index : Table String) :
    (members.foldl (fun index m ↦ index.insert (Text.lower m.id) name) index).get? key =
      if members.any fun m ↦ Text.lower m.id = key then some name else index.get? key := by
  induction members generalizing index with
  | nil => rfl
  | cons m rest ih =>
    rw [List.foldl_cons, ih, Table.get?_insert, List.any_cons]
    by_cases hrest : (rest.any fun m ↦ decide (Text.lower m.id = key)) = true
    · simp [hrest]
    · by_cases hm : Text.lower m.id = key
      · simp [hrest, hm]
      · simp [hrest, hm]

/-- The last listing with a member of the key names its group. -/
theorem get?_memberIndex (listings : List (String × List Member)) (key : String) :
    (memberIndex listings).get? key =
      (listings.findRev? fun l ↦ l.2.any fun m ↦ Text.lower m.id = key).map Prod.fst := by
  -- an index that is there before is kept where no listing has the key
  have hfrom : ∀ index : Table String,
      (listings.foldl (fun index l ↦
        l.2.foldl (fun index m ↦ index.insert (Text.lower m.id) l.1) index) index).get? key =
      ((listings.findRev? fun l ↦ l.2.any fun m ↦ Text.lower m.id = key).map Prod.fst).or
        (index.get? key) := by
    induction listings with
    | nil => exact fun index ↦ rfl
    | cons l rest ih =>
      intro index
      rw [List.foldl_cons, ih, get?_foldl_members, findRev?_cons, Option.map_or, Option.or_assoc]
      split_ifs <;> rfl
  exact (hfrom .empty).trans (Option.or_none)

/-- A plan that installs nothing finds an index that answers alike. -/
theorem Discovery.Plan.get?_commit (p : Plan) (registered : Snapshot) (index : Table String)
    (key : String) : (p.commit registered index).instances.get? key = index.get? key := by
  unfold commit installed?
  split_ifs with hsame
  · exact (Table.agrees_iff _ _).mp ((Bool.and_eq_true _ _).mp hsame).2 key
  · rfl

namespace Fleet

open NodeFleet.Quota

/-! ### One turn -/

theorem toOption_membersOrNone_error (e : Error) :
    (membersOrNone (.error e)).toOption.getD [] = [] := by
  unfold membersOrNone
  split <;> rfl

namespace Turn

/-- Whether the instance is among the members that the turn was told the group has. -/
def Lists (x : Turn) (g : NodeGroup) (id : String) : Prop :=
  ∃ members, lookup g.name x.told = some (.ok members) ∧ ∃ m ∈ members, Text.SameName m.id id

/-- Whether the turn was told that the group's scale set is not there. -/
def Misses (x : Turn) (g : NodeGroup) : Prop :=
  ∃ query resourceGroup set name, lookup g.name x.told =
    some (.error (.queryFailed query resourceGroup (.scaleSetNotFound set name)))

/-- The members that a turn indexes for a group. -/
def members (x : Turn) (g : NodeGroup) : List Member :=
  (membersOrNone (x.inventory.members g.name)).toOption.getD []

theorem lists_iff {x : Turn} {g : NodeGroup} {id : String} :
    x.Lists g id ↔ ∃ m ∈ x.members g, Text.SameName m.id id := by
  unfold Lists members inventory
  dsimp only
  cases hl : lookup g.name x.told with
  | none => simp [membersOrNone, Except.toOption]
  | some answer =>
    cases answer with
    | ok members => simp [membersOrNone, Except.toOption]
    | error e => simp [toOption_membersOrNone_error]

theorem Misses.not_lists {x : Turn} {g : NodeGroup} (h : x.Misses g) (id : String) :
    ¬ x.Lists g id := by
  obtain ⟨query, resourceGroup, set, name, hlookup⟩ := h
  rintro ⟨members, hmembers, -⟩
  rw [hlookup] at hmembers
  cases hmembers

end Turn

theorem Inventory.gather_eq {x : Turn} {groups : List NodeGroup}
    {listings : List (String × List Member)} (h : x.inventory.gather groups = .ok listings) :
    listings = groups.map fun g ↦ (g.name, x.members g) := by
  have hall := forall₂_of_mapM h
  clear h
  induction hall with
  | nil => rfl
  | cons hl hrest ih =>
    rename_i g l groups listings
    have hl' : l = (g.name, x.members g) := by
      unfold Turn.members
      cases hm : membersOrNone (x.inventory.members g.name) with
      | error e =>
        rw [hm] at hl
        cases hl
      | ok members =>
        rw [hm] at hl
        exact (Except.ok.inj hl).symm
    rw [List.map_cons, ih, hl']

/-- What a snapshot has of the members that a turn was told about. -/
structure Indexed (H : Lore) (x : Turn) (s : Snapshot) : Prop where
  /-- The members of just the registered groups were asked for, in their order. -/
  asked : x.told.map Prod.fst = s.groups.map NodeGroup.name
  heard : ∀ e ∈ x.told, H.told x.brief.ticket (.members e.1) e.2
  /-- An answer is a listing, or there is no such scale set. -/
  answers : ∀ g ∈ s.groups, (∃ members, lookup g.name x.told = some (.ok members)) ∨ x.Misses g
  /-- An instance belongs to the last group that lists it. -/
  owner : ∀ id g, s.owner? id = some g ↔ ∃ before after, s.groups = before ++ g :: after ∧
    x.Lists g id ∧ ∀ other ∈ after, ¬ x.Lists other id
  found : ∀ id, (∃ g, s.owner? id = some g) ↔ ∃ g ∈ s.groups, x.Lists g id
  /-- A group without its scale set has no instances. -/
  missing : ∀ g ∈ s.groups, x.Misses g → ∀ key, s.instances.get? key ≠ some g.name
  keys : ∀ e ∈ s.instances.entries, Text.lower e.1 = e.1
  values : ∀ e ∈ s.instances.entries, ∃ g ∈ s.groups, g.name = e.2

variable {site : Site} {b : Books} {H : Lore} {x : Turn}

/-- By key, the index names the last group whose members have it. -/
theorem Turn.Faithful.get?_instances (h : x.Faithful site b b) (hheard : x.Heard H site)
    (hr : x.result = .ok ()) (key : String) :
    (x.effect site b b).registry.instances.get? key =
      ((x.effect site b b).registry.groups.findRev? fun g ↦
        (x.members g).any fun m ↦ Text.lower m.id = key).map NodeGroup.name := by
  obtain ⟨listing, candidates, members, -, -, hgather, heffect⟩ := h.effect_of_done hheard hr
  have hgroups := Plan.groups_commit (marked_plan x.brief.cycle b.registry b.pinned
    (handles x.brief.serial candidates)) (memberIndex members)
  rw [heffect]
  unfold Books.install
  rw [hgroups, Plan.get?_commit, get?_memberIndex, Inventory.gather_eq hgather, findRev?_map,
    Option.map_map]
  rfl

/-- The owner of an instance is the last group that lists it. -/
theorem Turn.Faithful.owner? (h : x.Faithful site b b) (hheard : x.Heard H site)
    (hr : x.result = .ok ()) (hd : Distinct (x.effect site b b).registry.groups) (id : String) :
    (x.effect site b b).registry.owner? id =
      (x.effect site b b).registry.groups.findRev? fun g ↦
        (x.members g).any fun m ↦ Text.lower m.id = Text.lower id := by
  unfold Snapshot.owner?
  rw [h.get?_instances hheard hr]
  cases hlast : (x.effect site b b).registry.groups.findRev? fun g ↦
      (x.members g).any fun m ↦ decide (Text.lower m.id = Text.lower id) with
  | none => rfl
  | some g => exact hd.find?_eq_some (mem_of_findRev? hlast).1 rfl

theorem membersOrNone_error {e : Error} {members : List Member}
    (h : membersOrNone (.error e) = .ok members) :
    ∃ query resourceGroup set name, e = .queryFailed query resourceGroup
      (.scaleSetNotFound set name) := by
  unfold membersOrNone at h
  split at h
  · rename_i heq
    exact ⟨_, _, _, _, Except.error.inj heq⟩
  · cases h

/-- A turn that gathers the members of groups was answered about each that it asked about. -/
theorem Inventory.answered {groups : List NodeGroup} {listings : List (String × List Member)}
    (h : x.inventory.gather groups = .ok listings) {g : NodeGroup} (hg : g ∈ groups)
    (hasked : g.name ∈ x.told.map Prod.fst) :
    (∃ members, lookup g.name x.told = some (.ok members)) ∨ x.Misses g := by
  obtain ⟨answer, hanswer⟩ := exists_lookup hasked
  have hall := forall₂_of_mapM h
  obtain ⟨i, hi, rfl⟩ := List.mem_iff_getElem.mp hg
  have hone := (List.forall₂_iff_get.mp hall).2 i hi (hall.length_eq ▸ hi)
  cases answer with
  | ok members => exact Or.inl ⟨members, hanswer⟩
  | error e =>
    have hmembers : x.inventory.members groups[i].name = .error e := by
      show (lookup groups[i].name x.told).getD (.ok []) = .error e
      rw [hanswer]
      rfl
    cases hnone : membersOrNone (.error e) with
    | error e' =>
      rw [List.get_eq_getElem, hmembers, hnone] at hone
      cases hone
    | ok members =>
      obtain ⟨query, resourceGroup, set, name, rfl⟩ := membersOrNone_error hnone
      exact Or.inr ⟨query, resourceGroup, set, name, hanswer⟩

theorem Turn.Faithful.indexed (h : x.Faithful site b b) (hheard : x.Heard H site)
    (hr : x.result = .ok ()) (hd : Distinct (x.effect site b b).registry.groups) :
    Indexed H x (x.effect site b b).registry := by
  have hasked := h.told_eq hr
  have hlists : ∀ g id, ((x.members g).any fun m ↦ decide (Text.lower m.id = Text.lower id)) =
      true ↔ x.Lists g id := by
    intro g id
    rw [lists_iff, List.any_eq_true]
    simp only [decide_eq_true_iff]
  -- who is entered under a key
  have hentered : ∀ e ∈ (x.effect site b b).registry.instances.entries,
      ∃ g ∈ (x.effect site b b).registry.groups, g.name = e.2 ∧
        ∃ m ∈ x.members g, Text.lower m.id = e.1 := by
    intro e he
    have hget := (Table.get?_eq_some_iff _ e.1 e.2).mpr he
    rw [h.get?_instances hheard hr] at hget
    obtain ⟨g, hlast, hname⟩ := Option.map_eq_some_iff.mp hget
    obtain ⟨hg, hany⟩ := mem_of_findRev? hlast
    obtain ⟨m, hm, hkey⟩ := List.any_eq_true.mp hany
    exact ⟨g, hg, hname, m, hm, of_decide_eq_true hkey⟩
  refine ⟨hasked, hheard.2, ?_, ?_, ?_, ?_, ?_, ?_⟩
  · intro g hg
    obtain ⟨listing, candidates, members, -, -, hgather, heffect⟩ := h.effect_of_done hheard hr
    have hgroups := Plan.groups_commit (marked_plan x.brief.cycle b.registry b.pinned
      (handles x.brief.serial candidates)) (memberIndex members)
    refine Inventory.answered hgather ?_ (hasked ▸ List.mem_map_of_mem hg)
    rw [heffect] at hg
    exact hgroups ▸ hg
  · intro id g
    rw [h.owner? hheard hr hd, findRev?_eq_some_iff]
    simp only [hlists, ← Bool.not_eq_true]
  · intro id
    rw [h.owner? hheard hr hd, ← Option.isSome_iff_exists, List.findRev?_eq_find?_reverse,
      List.find?_isSome]
    simp only [hlists, List.mem_reverse]
  · intro g hg hmisses key hget
    have he := (Table.get?_eq_some_iff _ key g.name).mp hget
    obtain ⟨g', hg', hname, m, hm, -⟩ := hentered _ he
    have hsame : g' = g := by
      have hfind := hd.find?_eq_some hg (show g.Named g.name from rfl)
      have hfind' := hd.find?_eq_some hg' (show g'.Named g.name from congrArg Text.lower hname)
      exact Option.some.inj (hfind'.symm.trans hfind)
    exact hmisses.not_lists m.id (lists_iff.mpr ⟨m, hsame ▸ hm, rfl⟩)
  · intro e he
    obtain ⟨g, -, -, m, -, hkey⟩ := hentered e he
    rw [← hkey, Text.lower_lower]
  · intro e he
    obtain ⟨g, hg, hname, -⟩ := hentered e he
    exact ⟨g, hg, hname⟩

/-! ### Turns one after the other -/

/-- The snapshot that turns leave which run alone one after the other. -/
def Site.snapshotAfter (site : Site) (turns : List Turn) : Snapshot :=
  (serially site .empty (turns.map Turn.script)).1.registry

namespace Unwritten

theorem snapshotAfter_eq {turns : List Turn} (h : Unwritten site .empty (turns.map .turn)) :
    site.snapshotAfter turns = (booksAfter site .empty (turns.map .turn)).registry := by
  have hserial := congrArg (fun r ↦ r.1.registry) h.serially_eq
  rwa [List.filterMap_map, show Deed.turn? ∘ Deed.turn = some from rfl,
    List.filterMap_some] at hserial

theorem indexed {earlier later : List Turn}
    (h : Unwritten site .empty ((earlier ++ x :: later).map .turn)) (hheard : x.Heard H site)
    (hr : x.result = .ok ()) : Indexed H x (site.snapshotAfter (earlier ++ [x])) := by
  rw [← List.singleton_append, ← List.append_assoc] at h
  have hdone := h.append.1
  have hd := hdone.distinct distinct_empty
  have hlast := hdone.append.2
  rw [hdone.snapshotAfter_eq]
  rw [List.map_append, booksAfter_append] at hd ⊢
  cases hlast with
  | turn hm hfaithful _ =>
    rw [List.map_cons, booksAfter_turn hm] at hd ⊢
    exact hfaithful.indexed hheard hr hd

/-- Turns that fail leave the snapshot as it is. -/
theorem snapshotAfter_of_failed {first failed : List Turn}
    (h : Unwritten site .empty ((first ++ failed).map .turn))
    (hfailed : ∀ y ∈ failed, y.result ≠ .ok ()) :
    site.snapshotAfter (first ++ failed) = site.snapshotAfter first := by
  obtain ⟨hfirst, hrest⟩ := h.append
  rw [h.snapshotAfter_eq, hfirst.snapshotAfter_eq, List.map_append, booksAfter_append,
    hrest.booksAfter_of_failed hfailed]

end Unwritten

/-! ### Histories without direct writes -/

variable {α : Type} [Balance α]

/-- The snapshot that a cycle which succeeds leaves has just the members that it was told about, and
it stays until the next cycle succeeds; and a call that is done has had such a cycle, unless it was
a refresh that was not due. -/
theorem indexed_after (site : Site) (cloud : Cloud) (files : Files) (quotas : Option (Quotas α))
    {events : List Event} (hi : ∀ e ∈ events, e.Indirect) :
    (∀ earlier x later, ((fresh site cloud files quotas).after events).world.journal.turns =
        earlier ++ x :: later → x.result = .ok () →
      Indexed ((fresh site cloud files quotas).lore events) x
        (site.snapshotAfter (earlier ++ [x])) ∧
      ((∀ y ∈ later, y.result ≠ .ok ()) →
        ((fresh site cloud files quotas).after events).world.registry =
          site.snapshotAfter (earlier ++ [x]))) ∧
    (fresh site cloud files quotas).EndsByTurns events := by
  refine ⟨fun earlier x later hturns hr ↦ ?_,
    ends_after site cloud files quotas fun e he ↦ (hi e he).orderly⟩
  obtain ⟨hkept, hbooks, hunwritten⟩ :=
    unwritten_turns site cloud files quotas hi (List.prefix_refl events)
  have hheard := hkept.heard x (by rw [hturns]; simp)
  have hregistry : World.registry _ = _ :=
    (congrArg Books.registry hbooks).trans hunwritten.snapshotAfter_eq.symm
  rw [hturns] at hunwritten hregistry
  refine ⟨hunwritten.indexed hheard hr, fun hfailed ↦ ?_⟩
  rw [← List.singleton_append, ← List.append_assoc] at hunwritten hregistry
  rw [hregistry, hunwritten.snapshotAfter_of_failed hfailed]

theorem indexed_after_fetched :
    ∃ x, (smallFleet.after fetched).world.journal.turns = [x] ∧ x.result = .ok () ∧
      Indexed (smallFleet.lore fetched) x (smallFleet.after fetched).world.registry ∧
      ((smallFleet.after fetched).world.registry.owner? "/VM/1").map NodeGroup.name =
        some "db" ∧
      smallFleet.EndsByTurns fetched ∧
      ((smallFleet.after fetched).outcome? 0).any Outcome.isDone = true := by
  have hindirect : ∀ e ∈ fetched, e.Indirect := by
    simp [fetched, Event.Indirect]
  have hlength : (smallFleet.after fetched).world.journal.turns.length = 1 := by
    decide +kernel
  have hresults : ((smallFleet.after fetched).world.journal.turns.all fun x ↦ x.result.isOk) =
      true := by
    decide +kernel
  obtain ⟨x, hx⟩ := List.length_eq_one_iff.mp hlength
  rw [hx] at hresults
  have hr : x.result = .ok () := by
    cases hresult : x.result with
    | ok => rfl
    | error e => simp [hresult, Except.isOk, Except.toBool] at hresults
  have hturns : (smallFleet.after fetched).world.journal.turns = [] ++ x :: [] := hx
  obtain ⟨hall, hends⟩ :=
    indexed_after smallSite (.account smallAccount) .empty (none : Option (Quotas Rat)) hindirect
  obtain ⟨hindexed, hlast⟩ := hall [] x [] hturns hr
  have hregistry := hlast fun y hy ↦ absurd hy List.not_mem_nil
  exact ⟨x, hx, hr, hregistry ▸ hindexed, by decide +kernel, hends, by decide +kernel⟩

end Fleet

end NodeFleet
