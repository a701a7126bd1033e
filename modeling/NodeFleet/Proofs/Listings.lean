import NodeFleet.Proofs.Inquiries
/-!
The member listings of a plan. However far each of them is carried on before the next one, those
that have arrived make an inventory in which a cycle that runs alone gathers just the same members,
or meets the same failure first.
-/

set_option autoImplicit false
set_option relaxedAutoImplicit false

namespace NodeFleet.Fleet

open NodeFleet.Discovery NodeFleet.Quota

/-- What a history has to tell: the answers that were given since an activity began, and the cycles
that it was asked for. -/
structure Lore where
  told : Ticket → (q : Query) → Except Error q.Answer → Prop
  asked : Ticket → Cycle → Prop

/-- Whether the listing of a group still waits, or has an answer that was heard. -/
def Listing.Heard (H : Lore) (t : Ticket) (g : NodeGroup) : Listing → Prop
  | waiting _ => True
  | arrived answer => H.told t (.members g.name) answer

namespace World

variable {α : Type} [Balance α] (w : World α)

theorem inquired_newGroups {α : Type} (w : World α) (cs : List Candidate) :
    ∃ cells, w.newGroups cs = ({ w with cells }, handles w.cells.size cs) := by
  induction cs generalizing w with
  | nil => exact ⟨w.cells, rfl⟩
  | cons c rest ih =>
    obtain ⟨cells, hrest⟩ := ih { w with cells := w.cells.push .empty }
    refine ⟨cells, ?_⟩
    unfold newGroups
    dsimp only [newGroup]
    rw [hrest, Array.size_push]
    rfl

/-! ### Polling -/

theorem heard_pollMembers {w : World α} {site : Site} {H : Lore} {t : Ticket}
    (htells : ∀ q r, w.Tells site q r → H.told t q r) {g : NodeGroup} {l : Listing}
    (hl : l.Heard H t g) : (w.pollMembers site g l).2.Heard H t g := by
  cases l with
  | arrived answer => exact hl
  | waiting i =>
    dsimp only [pollMembers]
    rcases hpoll : w.pollInquiry site (.members g.name) i with ⟨w', i' | answer⟩
    · trivial
    · exact htells _ _ (tells_pollInquiry (congrArg Prod.snd hpoll))

theorem heard_pollListings {w : World α} {site : Site} {H : Lore} {t : Ticket}
    (htells : ∀ q r, w.Tells site q r → H.told t q r) {groups : List NodeGroup}
    {listings : List Listing} (hl : List.Forall₂ (Listing.Heard H t) groups listings) :
    List.Forall₂ (Listing.Heard H t) groups (w.pollListings site groups listings).2 := by
  induction hl generalizing w with
  | nil => exact .nil
  | cons hg hrest ih =>
    rename_i g l groups listings
    have hfirst := heard_pollMembers htells hg
    have hasked := asking_inquired.pollMembers w site g l
    dsimp only [World.pollListings]
    rcases hpoll : w.pollMembers site g l with ⟨w', l'⟩
    rw [hpoll] at hfirst hasked
    dsimp only
    split_ifs
    · exact .cons hfirst hrest
    · exact .cons hfirst (ih fun q r hr ↦ htells q r (hasked.tells hr))

end World

/-! ### What was told -/

theorem told_cons (g : NodeGroup) (groups : List NodeGroup) (l : Listing)
    (listings : List Listing) :
    told (g :: groups) (l :: listings) =
      (l.answer?.map fun answer ↦ (g.name, answer)).toList ++ told groups listings := by
  cases l <;> rfl

theorem heard_of_mem_told {H : Lore} {t : Ticket} {groups : List NodeGroup}
    {listings : List Listing}
    (hl : List.Forall₂ (Listing.Heard H t) groups listings)
    {e : String × Except Error (List Member)} (he : e ∈ told groups listings) :
    H.told t (.members e.1) e.2 := by
  induction hl with
  | nil => cases he
  | cons hg hrest ih =>
    rename_i g l groups listings
    rw [told_cons] at he
    rcases List.mem_append.mp he with he | he
    · cases l with
      | waiting i => cases he
      | arrived answer =>
        obtain rfl := List.mem_singleton.mp he
        exact hg
    · exact ih he

theorem mem_names_of_mem_told {groups : List NodeGroup} {listings : List Listing}
    {e : String × Except Error (List Member)} (he : e ∈ told groups listings) :
    e.1 ∈ groups.map NodeGroup.name := by
  obtain ⟨p, hp, hanswer⟩ := List.mem_filterMap.mp he
  obtain ⟨answer, -, rfl⟩ := Option.map_eq_some_iff.mp hanswer
  exact List.mem_map_of_mem (List.of_mem_zip hp).1

/-- Once the members are gathered, every group has been told about. -/
theorem names_told {H : Lore} {t : Ticket} {groups : List NodeGroup} {listings : List Listing}
    (hl : List.Forall₂ (Listing.Heard H t) groups listings) {members : List (String × List Member)}
    (hm : gathered? groups listings = some members) :
    (told groups listings).map Prod.fst = groups.map NodeGroup.name := by
  induction hl generalizing members with
  | nil => rfl
  | cons hg hrest ih =>
    rename_i g l groups listings
    unfold gathered? at hm ih
    rw [List.zip_cons_cons, List.mapM_cons] at hm
    obtain ⟨first, hfirst, hm⟩ := Option.bind_eq_some_iff.mp hm
    obtain ⟨rest, hgathered, -⟩ := Option.bind_eq_some_iff.mp hm
    rw [told_cons, List.map_append, ih hgathered]
    cases l with
    | waiting i => cases hfirst
    | arrived answer => rfl

theorem lookup_eq_none {β : Type} {key : String} {l : List (String × β)}
    (h : key ∉ l.map Prod.fst) : lookup key l = none := by
  induction l with
  | nil => rfl
  | cons e rest ih =>
    rw [List.map_cons, List.mem_cons, not_or] at h
    unfold lookup
    rw [if_neg fun he ↦ h.1 he.symm]
    exact ih h.2

/-- Names that are distinct tell each group its own answer. -/
theorem lookup_told {groups : List NodeGroup} {listings : List Listing}
    (hd : (groups.map NodeGroup.name).Nodup) {g : NodeGroup} {l : Listing}
    (h : (g, l) ∈ groups.zip listings) : lookup g.name (told groups listings) = l.answer? := by
  induction groups generalizing listings with
  | nil => cases h
  | cons first groups ih =>
    cases listings with
    | nil => cases h
    | cons listing listings =>
      obtain ⟨hfirst, hrest⟩ := List.nodup_cons.mp hd
      rw [told_cons]
      rcases List.mem_cons.mp h with he | hmem
      · obtain ⟨rfl, rfl⟩ := Prod.mk.inj he
        have hnone : lookup g.name (told groups listings) = none := by
          refine lookup_eq_none fun hkey ↦ ?_
          obtain ⟨e, he, hname⟩ := List.mem_map.mp hkey
          exact hfirst (hname ▸ mem_names_of_mem_told he)
        cases l with
        | waiting i => exact hnone
        | arrived answer => simp [Listing.answer?, lookup]
      · have hne : first.name ≠ g.name := by
          intro he
          exact hfirst (he ▸ List.mem_map_of_mem (List.of_mem_zip hmem).1)
        rw [← ih hrest hmem]
        cases listing with
        | waiting i => rfl
        | arrived answer => simp [Listing.answer?, lookup, hne]

/-! ### What a cycle that runs alone gathers -/

/-- Whether an inventory answers about the members of a group as the listing did, if it has. -/
def Inventory.Shows (v : Inventory) (g : NodeGroup) (l : Listing) : Prop :=
  v.members g.name = l.answer?.getD (.ok [])

theorem shows_inventory {t : Turn} {groups : List NodeGroup} {listings : List Listing}
    (ht : t.told = told groups listings) (hd : Distinct groups)
    (hlen : groups.length = listings.length) :
    List.Forall₂ t.inventory.Shows groups listings := by
  have hnames : (groups.map NodeGroup.name).Nodup := by
    refine List.Nodup.of_map Text.lower ?_
    rw [List.map_map]
    exact hd
  refine List.forall₂_iff_zip.mpr ⟨hlen, ?_⟩
  intro g l hmem
  show (lookup g.name t.told).getD (.ok []) = l.answer?.getD (.ok [])
  rw [ht, lookup_told hnames hmem]

theorem Inventory.gather_cons (v : Inventory) (g : NodeGroup) (groups : List NodeGroup) :
    v.gather (g :: groups) =
      (membersOrNone (v.members g.name)).bind fun members ↦
        (v.gather groups).map fun rest ↦ (g.name, members) :: rest := by
  rw [show v.gather (g :: groups) = _ from List.mapM_cons]
  cases membersOrNone (v.members g.name) with
  | error e => rfl
  | ok members =>
    change (v.gather groups >>= fun rest ↦ pure ((g.name, members) :: rest)) = _
    cases v.gather groups <;> rfl

/-- The listing that fails first in the order of the groups fails the cycle. -/
theorem gather_of_failure {v : Inventory} {groups : List NodeGroup} {listings : List Listing}
    (hv : List.Forall₂ v.Shows groups listings) {e : Error}
    (he : listings.findSome? Listing.failure? = some e) : v.gather groups = .error e := by
  induction hv with
  | nil => cases he
  | cons hg hrest ih =>
    rename_i g l groups listings
    rw [List.findSome?_cons] at he
    rw [Inventory.gather_cons, hg]
    cases l with
    | waiting i =>
      rw [ih he]
      rfl
    | arrived answer =>
      dsimp only [Listing.failure?] at he
      dsimp only [Listing.answer?, Option.getD]
      cases hanswer : membersOrNone answer with
      | error cause =>
        rw [hanswer] at he
        obtain rfl := Option.some.inj he
        rfl
      | ok members =>
        rw [hanswer] at he
        rw [ih he]
        rfl

/-- Listings that have all arrived give what a cycle gathers that runs alone. -/
theorem gather_of_gathered {v : Inventory} {groups : List NodeGroup} {listings : List Listing}
    (hv : List.Forall₂ v.Shows groups listings) {members : List (String × List Member)}
    (hm : gathered? groups listings = some members) : v.gather groups = .ok members := by
  induction hv generalizing members with
  | nil =>
    obtain rfl := Option.some.inj hm
    rfl
  | cons hg hrest ih =>
    rename_i g l groups listings
    unfold gathered? at hm ih
    rw [List.zip_cons_cons, List.mapM_cons] at hm
    obtain ⟨first, hfirst, hm⟩ := Option.bind_eq_some_iff.mp hm
    obtain ⟨rest, hgathered, hm⟩ := Option.bind_eq_some_iff.mp hm
    obtain rfl := Option.some.inj hm
    obtain ⟨found, hfound, rfl⟩ := Option.map_eq_some_iff.mp hfirst
    rw [Inventory.gather_cons, hg, ih hgathered]
    cases l with
    | waiting i => cases hfound
    | arrived answer =>
      dsimp only [Listing.members?] at hfound
      dsimp only [Listing.answer?, Option.getD]
      cases hanswer : membersOrNone answer with
      | error cause =>
        rw [hanswer] at hfound
        cases hfound
      | ok given =>
        rw [hanswer] at hfound
        obtain rfl := Option.some.inj hfound
        rfl

end NodeFleet.Fleet
