import NodeFleet.Proofs.ExplicitFetches
/-!
Explicit fetches done again. Once more with the same specs on the same inventory, a fetch pins
nothing new, keeps all sizes and indexes the instances as they were; and it changes nothing at all
unless the specs give a listed name different bounds. Then the group of the name, which has the
bounds of the last spec already, gives way to a new handle with the same name and bounds and of
unknown size, in a new version.
-/

set_option autoImplicit false
set_option relaxedAutoImplicit false

namespace NodeFleet

variable {g g' : NodeGroup} {groups placed placed' : List NodeGroup} {k : String}

/-! ### Handles of the same groups -/

/-- Groups that are told apart by their serial numbers alone. -/
def NodeGroup.Reissued (g g' : NodeGroup) : Prop :=
  g' = { g with serial := g'.serial }

/-- Whether a name is placed with different bounds. -/
def Disputed (k : String) (placed : List NodeGroup) : Prop :=
  ∃ p ∈ ofKey k placed, ∃ p' ∈ ofKey k placed, p.bounds ≠ p'.bounds

theorem NodeGroup.Reissued.name (h : g.Reissued g') : g'.name = g.name := by
  rw [h]

theorem NodeGroup.Reissued.bounds (h : g.Reissued g') : g'.bounds = g.bounds := by
  rw [h]

theorem NodeGroup.overlaid_of_agreeing (h : ∀ p ∈ placed, p.bounds = g.bounds) :
    g.overlaid placed = g := by
  induction placed with
  | nil => rfl
  | cons p rest ih =>
    obtain ⟨hp, hrest⟩ := List.forall_mem_cons.mp h
    rw [overlaid_cons, if_pos hp.symm]
    exact ih hrest

/-- A group that is placed with other bounds gives way to one of those that are placed. -/
theorem NodeGroup.overlaid_mem (h : ∃ p ∈ placed, p.bounds ≠ g.bounds) :
    g.overlaid placed ∈ placed := by
  induction placed generalizing g with
  | nil =>
    obtain ⟨p, hp, -⟩ := h
    cases hp
  | cons p rest ih =>
    rw [overlaid_cons]
    by_cases hother : ∃ q ∈ rest, q.bounds ≠ p.bounds
    · refine List.mem_cons_of_mem _ (ih ?_)
      split_ifs with hp
      · rw [hp]
        exact hother
      · exact hother
    · push Not at hother
      have hp : ¬ g.bounds = p.bounds := by
        intro hp
        obtain ⟨q, hq, hne⟩ := h
        rcases List.mem_cons.mp hq with rfl | hq
        · exact hne hp.symm
        · exact hne ((hother q hq).trans hp.symm)
      rw [if_neg hp, overlaid_of_agreeing hother]
      exact List.mem_cons_self

theorem NodeGroup.Reissued.overlaid (h : g.Reissued g')
    (hplaced : List.Forall₂ Reissued placed placed') :
    (g.overlaid placed).Reissued (g'.overlaid placed') := by
  induction hplaced generalizing g g' with
  | nil => exact h
  | cons hp hrest ih =>
    rw [overlaid_cons, overlaid_cons, h.bounds, hp.bounds]
    split_ifs
    · exact ih h
    · exact ih hp

/-- Groups with the same bounds give way alike to groups of other bounds. -/
theorem NodeGroup.reissued_of_bounds (hbounds : g.bounds = g'.bounds)
    (hplaced : List.Forall₂ Reissued placed placed') (h : ∃ p ∈ placed, p.bounds ≠ g.bounds) :
    (g.overlaid placed).Reissued (g'.overlaid placed') := by
  induction hplaced with
  | nil =>
    obtain ⟨p, hp, -⟩ := h
    cases hp
  | @cons p p' rest rest' hp hrest ih =>
    rw [overlaid_cons, overlaid_cons, hp.bounds, ← hbounds]
    split_ifs with hsame
    · refine ih ?_
      obtain ⟨q, hq, hne⟩ := h
      rcases List.mem_cons.mp hq with rfl | hq
      · exact absurd hsame.symm hne
      · exact ⟨q, hq, hne⟩
    · exact hp.overlaid hrest

/-- Groups of a disputed name give way alike, whatever they were. -/
theorem NodeGroup.reissued_of_disputed (hplaced : List.Forall₂ Reissued placed placed')
    (h : ∃ p ∈ placed, ∃ q ∈ placed, p.bounds ≠ q.bounds) (g g' : NodeGroup) :
    (g.overlaid placed).Reissued (g'.overlaid placed') := by
  cases hplaced with
  | nil =>
    obtain ⟨p, hp, -⟩ := h
    cases hp
  | @cons p p' rest rest' hp hrest =>
    have hother : ∃ q ∈ rest, q.bounds ≠ p.bounds := by
      by_contra hall
      push Not at hall
      have hbounds : ∀ q ∈ p :: rest, q.bounds = p.bounds :=
        List.forall_mem_cons.mpr ⟨rfl, hall⟩
      obtain ⟨q, hq, q', hq', hne⟩ := h
      exact hne ((hbounds q hq).trans (hbounds q' hq').symm)
    have hstands : ∀ x : NodeGroup, ∀ y : NodeGroup, y.bounds = p.bounds →
        (if x.bounds = y.bounds then x else y).bounds = p.bounds := by
      intro x y hy
      split_ifs with hx
      · exact hx.trans hy
      · exact hy
    have hfirst := hstands g p rfl
    have hfirst' := hstands g' p' hp.bounds
    rw [overlaid_cons, overlaid_cons]
    exact reissued_of_bounds (hfirst.trans hfirst'.symm) hrest (hfirst.symm ▸ hother)

/-! ### Placing the same groups again -/

theorem Disputed.mem_keys (hk : Disputed k placed) : k ∈ keys placed := by
  obtain ⟨p, hp, -⟩ := hk
  rw [← key_of_mem_ofKey hp]
  exact List.mem_map_of_mem (List.mem_of_mem_filter hp)

theorem forall₂_ofKey (h : List.Forall₂ NodeGroup.Reissued placed placed') (k : String) :
    List.Forall₂ NodeGroup.Reissued (ofKey k placed) (ofKey k placed') := by
  unfold ofKey
  induction h with
  | nil => exact .nil
  | @cons p p' rest rest' hp hrest ih =>
    have hkey : p'.key = p.key := congrArg Text.lower hp.name
    rw [List.filter_cons, List.filter_cons, hkey]
    split_ifs
    · exact .cons hp ih
    · exact ih

/-- Each group stays, or it is the first of its name and gives way to those placed of that. -/
theorem forall₂_placeGroups (groups placed : List NodeGroup) :
    List.Forall₂ (fun g g' ↦ g' = g ∨ groups.find? (fun h ↦ h.key = g.key) = some g ∧
        g' = g.overlaid (ofKey g.key placed)) groups
      ((placeGroups groups placed).1.take groups.length) := by
  induction groups generalizing placed with
  | nil => exact .nil
  | cons first rest ih =>
    rw [placeGroups_cons_left]
    refine .cons (Or.inr ⟨by simp, rfl⟩) ((ih (ofOtherKeys first.key placed)).imp fun g g' hg ↦ ?_)
    rcases hg with hsame | ⟨hfind, hgives⟩
    · exact Or.inl hsame
    · by_cases hk : g.key = first.key
      · have hnone : ofKey g.key (ofOtherKeys first.key placed) = [] := by
          refine ofKey_eq_nil ?_
          rw [keys_ofOtherKeys, hk]
          simp
        rw [hnone] at hgives
        exact Or.inl hgives
      · rw [ofKey_ofOtherKeys hk] at hgives
        refine Or.inr ⟨?_, hgives⟩
        rw [List.find?_cons_of_neg (by simpa using fun h ↦ hk h.symm)]
        exact hfind

theorem placeGroup_unchanged_iff (p : NodeGroup) (groups : List NodeGroup) :
    (placeGroup p groups).2 = false ↔
      ∃ g, groups.find? (fun h ↦ h.key = p.key) = some g ∧ g.bounds = p.bounds := by
  induction groups with
  | nil => simp [placeGroup]
  | cons first rest ih =>
    rw [placeGroup_cons]
    by_cases hk : first.key = p.key
    · by_cases hb : first.bounds = p.bounds
      · simp [hk, hb]
      · simp [hk, hb]
    · simp [hk, ih]

/-- Nothing changes just when every group finds one of its name and bounds. -/
theorem placeGroups_unchanged_iff (groups placed : List NodeGroup) :
    (placeGroups groups placed).2 = false ↔
      ∀ p ∈ placed, ∃ g, groups.find? (fun h ↦ h.key = p.key) = some g ∧ g.bounds = p.bounds := by
  induction placed generalizing groups with
  | nil => simp [placeGroups]
  | cons p rest ih =>
    rw [placeGroups_cons, List.forall_mem_cons, ← placeGroup_unchanged_iff, Bool.or_eq_false_iff]
    refine and_congr_right fun hfirst ↦ ?_
    rw [placeGroup_of_unchanged hfirst]
    exact ih groups

theorem mem_keys_placeGroups (hk : k ∈ keys placed) (groups : List NodeGroup) :
    k ∈ keys (placeGroups groups placed).1 := by
  rw [keys_placeGroups_append, List.mem_append, List.mem_eraseDups, List.mem_filter]
  by_cases hknown : k ∈ keys groups
  · exact Or.inl hknown
  · exact Or.inr ⟨hk, decide_eq_true hknown⟩

section

variable (hplaced : List.Forall₂ NodeGroup.Reissued placed placed')

include hplaced

theorem keys_of_reissued : keys placed' = keys placed := by
  unfold keys
  induction hplaced with
  | nil => rfl
  | cons hp hrest ih =>
    rw [List.map_cons, List.map_cons, ih]
    exact congrArg (· :: _) (congrArg Text.lower hp.name)

theorem bounds_of_reissued : placed'.map NodeGroup.bounds = placed.map NodeGroup.bounds := by
  induction hplaced with
  | nil => rfl
  | cons hp hrest ih => rw [List.map_cons, List.map_cons, ih, hp.bounds]

theorem Disputed.exists_ne (hk : Disputed k placed) (b : Bounds) :
    ∃ p' ∈ ofKey k placed', p'.bounds ≠ b := by
  obtain ⟨p, hp, hne⟩ : ∃ p ∈ ofKey k placed, p.bounds ≠ b := by
    by_contra hall
    push Not at hall
    obtain ⟨p, hp, q, hq, hne⟩ := hk
    exact hne ((hall p hp).trans (hall q hq).symm)
  have hmem := List.mem_map_of_mem (f := NodeGroup.bounds) hp
  rw [← bounds_of_reissued (forall₂_ofKey hplaced k)] at hmem
  obtain ⟨p', hp', hsame⟩ := List.mem_map.mp hmem
  exact ⟨p', hp', hsame ▸ hne⟩

theorem bounds_of_undisputed (hk : ¬ Disputed k placed) {p' : NodeGroup}
    (hp' : p' ∈ ofKey k placed') (x : NodeGroup) :
    p'.bounds = (x.overlaid (ofKey k placed)).bounds := by
  have hmem := List.mem_map_of_mem (f := NodeGroup.bounds) hp'
  rw [bounds_of_reissued (forall₂_ofKey hplaced k)] at hmem
  obtain ⟨p, hp, hsame⟩ := List.mem_map.mp hmem
  obtain ⟨last, hlast⟩ := Option.isSome_iff_exists.mp
    (List.getLast?_isSome.mpr (List.ne_nil_of_mem hp))
  rw [← hsame, NodeGroup.bounds_overlaid, hlast]
  by_contra hne
  exact hk ⟨p, hp, last, List.mem_of_getLast? hlast, hne⟩

/-- What stands in a place stays there unless its name is disputed, and is then issued again. -/
theorem overlaid_again {x : NodeGroup} (hg : g = x.overlaid (ofKey k placed)) :
    g.overlaid (ofKey k placed') = g ∨
      Disputed k placed ∧ g.overlaid (ofKey k placed') ∈ placed' ∧
        g.Reissued (g.overlaid (ofKey k placed')) := by
  by_cases hk : Disputed k placed
  · have hgives := NodeGroup.reissued_of_disputed (forall₂_ofKey hplaced k) hk x g
    rw [← hg] at hgives
    exact Or.inr ⟨hk, List.mem_of_mem_filter (g.overlaid_mem (hk.exists_ne hplaced _)), hgives⟩
  · refine Or.inl (NodeGroup.overlaid_of_agreeing fun p' hp' ↦ ?_)
    rw [hg]
    exact bounds_of_undisputed hplaced hk hp' x

variable (groups : List NodeGroup)

/-- When the same groups are placed again, just those of disputed names are issued again, each as
the group that it is. -/
theorem forall₂_placeGroups_again :
    List.Forall₂ (fun g g' ↦ g' = g ∨ Disputed g.key placed ∧ g' ∈ placed' ∧ g.Reissued g')
      (placeGroups groups placed).1
      (placeGroups (placeGroups groups placed).1 placed').1 := by
  have hkeys := keys_placeGroups_append (placeGroups groups placed).1 placed'
  have hknown : (keys placed').filter (· ∉ keys (placeGroups groups placed).1) = [] := by
    rw [keys_of_reissued hplaced]
    exact List.filter_eq_nil_iff.mpr fun k hk ↦ by simpa using mem_keys_placeGroups hk groups
  rw [hknown] at hkeys
  have hlength := congrArg List.length hkeys
  have hsteps := forall₂_placeGroups (placeGroups groups placed).1 placed'
  rw [List.take_of_length_le (by simpa [keys] using Nat.le_of_eq hlength)] at hsteps
  refine hsteps.imp fun g g' hg ↦ ?_
  rcases hg with hsame | ⟨hfind, rfl⟩
  · exact Or.inl hsame
  · by_cases hk : g.key ∈ keys placed
    · obtain ⟨x, hx⟩ := exists_find?_placeGroups hk groups
      exact overlaid_again hplaced (Option.some.inj (hfind.symm.trans hx))
    · rw [← keys_of_reissued hplaced] at hk
      rw [ofKey_eq_nil hk]
      exact Or.inl rfl

theorem names_placeGroups_again :
    (placeGroups (placeGroups groups placed).1 placed').1.map NodeGroup.name =
      (placeGroups groups placed).1.map NodeGroup.name := by
  rw [← List.forall₂_eq_eq_eq, List.forall₂_map_left_iff, List.forall₂_map_right_iff]
  refine (forall₂_placeGroups_again hplaced groups).flip.imp fun g' g hg ↦ ?_
  rcases hg with rfl | ⟨-, -, hgives⟩
  · rfl
  · exact hgives.name

/-- A disputed name is issued again. -/
theorem find?_placeGroups_again (hk : Disputed k placed) :
    ∃ g' ∈ placed', (placeGroups (placeGroups groups placed).1 placed').1.find?
      (fun g ↦ g.key = k) = some g' := by
  have hplaced_again : k ∈ keys placed' := keys_of_reissued hplaced ▸ hk.mem_keys
  obtain ⟨g, hg⟩ := exists_find?_placeGroups hplaced_again (placeGroups groups placed).1
  exact ⟨_, List.mem_of_mem_filter (g.overlaid_mem (hk.exists_ne hplaced _)), hg⟩

/-- It is a change just when there is a disputed name. -/
theorem placeGroups_again_iff :
    (placeGroups (placeGroups groups placed).1 placed').2 = true ↔ ∃ k, Disputed k placed := by
  rw [← Bool.not_eq_false, placeGroups_unchanged_iff, not_iff_comm]
  constructor
  · intro hundisputed p' hp'
    have hk : p'.key ∈ keys placed := keys_of_reissued hplaced ▸ List.mem_map_of_mem hp'
    obtain ⟨x, hx⟩ := exists_find?_placeGroups hk groups
    have hown : p' ∈ ofKey p'.key placed' := List.mem_filter.mpr ⟨hp', decide_eq_true rfl⟩
    have hbounds := bounds_of_undisputed hplaced (fun h ↦ hundisputed ⟨_, h⟩) hown x
    exact ⟨_, hx, hbounds.symm⟩
  · rintro hfound ⟨k, hk⟩
    obtain ⟨x, hx⟩ := exists_find?_placeGroups hk.mem_keys groups
    obtain ⟨p', hp', hne⟩ := hk.exists_ne hplaced (x.overlaid (ofKey k placed)).bounds
    obtain ⟨g, hg, hbounds⟩ := hfound p' (List.mem_of_mem_filter hp')
    rw [key_of_mem_ofKey hp', hx] at hg
    obtain rfl := Option.some.inj hg
    exact hne hbounds.symm

end

namespace Fleet

open NodeFleet.Discovery NodeFleet.Quota

variable {α : Type}

/-! ### The groups of specs -/

/-- Whether listed specs of a name have different bounds. -/
def SpecsDiffer (specs : List ExplicitSpec) (listing : List ScaleSet) (key : String) : Prop :=
  ∃ s ∈ specs, ∃ s' ∈ specs, s.key = key ∧ s'.key = key ∧ isListed listing s.name = true ∧
    s.bounds ≠ s'.bounds

variable {specs : List ExplicitSpec} {listing : List ScaleSet}

theorem reissued_handles (serial serial' : Nat) (candidates : List Candidate) :
    List.Forall₂ NodeGroup.Reissued (handles serial candidates) (handles serial' candidates) := by
  induction candidates generalizing serial serial' with
  | nil => exact .nil
  | cons c rest ih => exact .cons rfl (ih (serial + 1) (serial' + 1))

theorem bounds_ofKey_handles (key : String) (serial : Nat) (candidates : List Candidate) :
    (ofKey key (handles serial candidates)).map NodeGroup.bounds =
      (candidates.filter fun c ↦ Text.lower c.name = key).map Candidate.bounds := by
  unfold ofKey
  induction candidates generalizing serial with
  | nil => rfl
  | cons c rest ih =>
    have hkey : NodeGroup.key ⟨serial, c.name, c.bounds, defaultSizePeriod⟩ = Text.lower c.name :=
      rfl
    rw [show handles serial (c :: rest) =
      ⟨serial, c.name, c.bounds, defaultSizePeriod⟩ :: handles (serial + 1) rest from rfl,
      List.filter_cons, List.filter_cons, hkey]
    split_ifs
    · exact congrArg (c.bounds :: ·) (ih (serial + 1))
    · exact ih (serial + 1)

theorem mem_bounds_ofKey (serial : Nat) (specs : List ExplicitSpec) (listing : List ScaleSet)
    (key : String) (b : Bounds) :
    (∃ p ∈ ofKey key (handles serial (explicitCandidates specs listing)), p.bounds = b) ↔
      ∃ s ∈ specs, s.key = key ∧ isListed listing s.name = true ∧ s.bounds = b := by
  rw [← List.mem_map, bounds_ofKey_handles]
  unfold explicitCandidates
  constructor
  · intro hb
    obtain ⟨c, hc, rfl⟩ := List.mem_map.mp hb
    obtain ⟨hmem, hkey⟩ := List.mem_filter.mp hc
    obtain ⟨s, hs, rfl⟩ := List.mem_map.mp hmem
    obtain ⟨hs, hlisted⟩ := List.mem_filter.mp hs
    exact ⟨s, hs, of_decide_eq_true hkey, hlisted, rfl⟩
  · rintro ⟨s, hs, hkey, hlisted, rfl⟩
    refine List.mem_map.mpr ⟨⟨s.name, ⟨s.min, s.max⟩⟩, List.mem_filter.mpr ⟨?_, ?_⟩, rfl⟩
    · exact List.mem_map_of_mem (List.mem_filter.mpr ⟨hs, hlisted⟩)
    · exact decide_eq_true hkey

theorem disputed_iff (serial : Nat) (specs : List ExplicitSpec) (listing : List ScaleSet)
    (key : String) :
    Disputed key (handles serial (explicitCandidates specs listing)) ↔
      SpecsDiffer specs listing key := by
  have hbounds := mem_bounds_ofKey serial specs listing key
  constructor
  · rintro ⟨p, hp, p', hp', hne⟩
    obtain ⟨s, hs, hkey, hlisted, hsame⟩ := (hbounds _).mp ⟨p, hp, rfl⟩
    obtain ⟨s', hs', hkey', -, hsame'⟩ := (hbounds _).mp ⟨p', hp', rfl⟩
    exact ⟨s, hs, s', hs', hkey, hkey', hlisted, hsame ▸ hsame' ▸ hne⟩
  · rintro ⟨s, hs, s', hs', hkey, hkey', hlisted, hne⟩
    have hlisted' : isListed listing s'.name = true :=
      (isListed_congr listing (hkey'.trans hkey.symm)).trans hlisted
    obtain ⟨p, hp, hsame⟩ := (hbounds _).mpr ⟨s, hs, hkey, hlisted, rfl⟩
    obtain ⟨p', hp', hsame'⟩ := (hbounds _).mpr ⟨s', hs', hkey', hlisted', rfl⟩
    exact ⟨p, hp, p', hp', hsame ▸ hsame' ▸ hne⟩

/-! ### Inventories that stay as they are -/

variable [Balance α]

/-- Whether a fleet has the given answers for its questions at all moments of a history. -/
def Answers (f : Fleet α) (A : (q : Query) → Except CloudError q.Answer) (events : List Event) :
    Prop :=
  ∀ before, before <+: events → ∀ q, (f.after before).world.answer f.site.resourceGroup q = A q

variable {f f' : Fleet α} {A : (q : Query) → Except CloudError q.Answer}
  {events events' : List Event}

theorem Answers.tells (h : f.Answers A events) {t : Ticket} {q : Query} {r : Except Error q.Answer}
    (ht : (f.lore events).told t q r) :
    r = (A q).mapError (.queryFailed q f.site.resourceGroup) ∨
      r = .error (.deadlineExceeded q f.site.inventoryTimeout) := by
  obtain ⟨before, hbefore, -, htells⟩ := ht
  unfold World.Tells at htells
  rw [h before hbefore q] at htells
  exact htells

theorem Answers.told (h : f.Answers A events) {t : Ticket} {q : Query} {a : q.Answer}
    (ht : (f.lore events).told t q (.ok a)) : A q = .ok a := by
  rcases h.tells ht with htells | hlate
  · cases ha : A q with
    | error e =>
      rw [ha] at htells
      cases htells
    | ok a' =>
      rw [ha] at htells
      exact congrArg Except.ok (Except.ok.inj htells).symm
  · cases hlate

/-- The members that a group turns out to have are those that the inventory gives. -/
theorem Answers.members (h : f.Answers A events) {t : Ticket} {groups : List NodeGroup}
    {members : List (String × List Member)}
    (htold : List.Forall₂ (ToldMembers (f.lore events) t) groups members) :
    List.Forall₂ (fun name l ↦ l.1 = name ∧ membersOrNone ((A (.members name)).mapError
      (.queryFailed (.members name) f.site.resourceGroup)) = .ok l.2)
      (groups.map NodeGroup.name) members := by
  refine List.forall₂_map_left_iff.mpr (htold.imp fun g l hl ↦ ?_)
  obtain ⟨hname, answer, hanswer, hgiven⟩ := hl
  refine ⟨hname, ?_⟩
  rcases h.tells hanswer with rfl | rfl
  · exact hgiven
  · cases hgiven

theorem told_unique (given : String → Except Error (List Member)) :
    Relator.RightUnique fun (name : String) (l : String × List Member) ↦
      l.1 = name ∧ given name = .ok l.2 := by
  rintro name l l' ⟨hname, hl⟩ ⟨hname', hl'⟩
  exact Prod.ext (hname.trans hname'.symm) (Except.ok.inj (hl.symm.trans hl'))

/-- What an explicit fetch leaves that is done again on the same inventory. -/
structure Refetched (specs : List ExplicitSpec) (listing : List ScaleSet) (w w' : World α) :
    Prop where
  pinned : w'.pinned = w.pinned
  sizes : ∀ g, w'.cell g = w.cell g
  instances : ∀ id, w'.registry.instances.get? id = w.registry.instances.get? id
  /-- A group stays the handle it was, where it was, unless specs differ about its name, and is the
  same group even then. -/
  groups : List.Forall₂ (fun g g' ↦ g' = g ∨ SpecsDiffer specs listing g.key ∧ g.Reissued g' ∧
    w.cells.size ≤ g'.serial) w.registry.groups w'.registry.groups
  /-- A name about which specs differ gets a handle that nobody had, of unknown size. -/
  reissued : ∀ key, SpecsDiffer specs listing key → ∃ g, w.cells.size ≤ g.serial ∧
    w'.cell g = .empty ∧ ∀ name, Text.lower name = key → w'.registry.find? name = some g
  /-- Without such a name nothing changes. -/
  unchanged : (∀ key, ¬ SpecsDiffer specs listing key) → w'.registry = w.registry
  version : (∃ key, SpecsDiffer specs listing key) →
    w'.registry.version = w.registry.version + 1

/-- Once the index is what the registry has, only the groups decide whether a plan changes it. -/
theorem commit_of_agreeing {p : Plan} {registered : Snapshot} {index : Table String}
    (h : ∀ id, registered.instances.get? id = index.get? id) :
    p.commit registered index =
      if p.changed = true then registered.replace p.groups index else registered := by
  have hagrees := (Table.agrees_iff registered.instances index).mpr h
  unfold Plan.commit Plan.installed?
  rw [hagrees, Bool.and_true]
  cases p.changed <;> rfl

omit [Balance α] in
theorem refetched_of_install {w w' : World α} {registered : Snapshot} {serial serial' : Nat}
    {index : Table String} (hpinned : ∀ key ∈ listedKeys specs listing, key ∈ w.pinned)
    (hregistry : w.registry =
      (Plan.explicit registered (handles serial (explicitCandidates specs listing))).commit
        registered index)
    (hserial : w.cells.size ≤ serial')
    (hbooks : w'.books = w.books.install
      (Plan.explicit w.registry (handles serial' (explicitCandidates specs listing))) index)
    (hcells : ∀ g, w'.cell g = w.cell g) : Refetched specs listing w w' := by
  have hplaced := reissued_handles serial serial' (explicitCandidates specs listing)
  have hkeys := keys_resolved serial' specs listing
  have hdisputed := disputed_iff serial specs listing
  have hfresh : ∀ g ∈ handles serial' (explicitCandidates specs listing),
      w.cells.size ≤ g.serial := fun g hg ↦ hserial.trans (mem_handles hg).2.1
  generalize handles serial (explicitCandidates specs listing) = placed at *
  generalize handles serial' (explicitCandidates specs listing) = placed' at *
  have hnow : w.registry.groups = (placeGroups registered.groups placed).1 := by
    rw [hregistry, groups_explicit]
  have hindex : ∀ id, w.registry.instances.get? id = index.get? id := by
    intro id
    rw [hregistry]
    exact Plan.get?_commit _ _ _ id
  have hregistry' : w'.registry = (Plan.explicit w.registry placed').commit w.registry index :=
    congrArg Books.registry hbooks
  have hgroups : w'.registry.groups = (placeGroups w.registry.groups placed').1 := by
    rw [hregistry', groups_explicit]
  have hchanged : (Plan.explicit w.registry placed').changed = true ↔
      ∃ key, SpecsDiffer specs listing key := by
    show (placeGroups w.registry.groups placed').2 = true ↔ _
    rw [hnow, placeGroups_again_iff hplaced]
    exact exists_congr hdisputed
  have hcommit : w'.registry = if (Plan.explicit w.registry placed').changed = true then
      w.registry.replace (Plan.explicit w.registry placed').groups index else w.registry :=
    hregistry'.trans (commit_of_agreeing hindex)
  refine ⟨?_, hcells, ?_, ?_, ?_, ?_, ?_⟩
  · have hpins : w'.pinned = w.pinned ++ (keys placed').filter (· ∉ w.pinned) :=
      congrArg Books.pinned hbooks
    rw [hpins, hkeys, List.filter_eq_nil_iff.mpr, List.append_nil]
    exact fun key hkey ↦ by simpa using hpinned key hkey
  · intro id
    rw [hregistry', Plan.get?_commit, hindex]
  · rw [hgroups, hnow]
    refine (forall₂_placeGroups_again hplaced registered.groups).imp fun g g' hg ↦ ?_
    refine hg.imp_right fun ⟨hk, hmem, hgives⟩ ↦ ⟨(hdisputed _).mp hk, hgives, hfresh g' hmem⟩
  · intro key hkey
    obtain ⟨g', hmem, hfind⟩ :=
      find?_placeGroups_again hplaced registered.groups ((hdisputed key).mpr hkey)
    refine ⟨g', hfresh g' hmem, (hcells g').trans (World.cell_of_le (hfresh g' hmem)), ?_⟩
    rintro name rfl
    rw [← hfind, ← hnow, ← hgroups]
    rfl
  · intro hnone
    rw [hcommit, if_neg]
    exact fun h ↦ not_exists.mpr hnone (hchanged.mp h)
  · intro hdiffer
    rw [hcommit, if_pos (hchanged.mpr hdiffer)]
    rfl

/-- Calls that nothing interferes with, on an inventory that answers alike all along. -/
structure Steadily (A : (q : Query) → Except CloudError q.Answer) (f : Fleet α) (o : Operation)
    (during : List Event) : Prop where
  attends : ∀ e ∈ during, e.Attends f.nextTicket
  answers : f.Answers A (.begin o :: during)

variable {texts : List String} {during during' : List Event}

theorem Steadily.installs (h : Steadily A f (.fetchExplicit texts) during) (hf : f.Reachable)
    (hspecs : ExplicitSpec.parseAll texts = .ok specs)
    (hdone : ((f.begin (.fetchExplicit texts)).after during).outcome? f.nextTicket = some .done) :
    ∃ listing serial members,
      (if specs.isEmpty then listing = [] else A .scaleSets = .ok listing) ∧
      Installs (f.heard (.fetchExplicit texts) during) f.site f.nextTicket (.explicit specs) f.world
        ((f.begin (.fetchExplicit texts)).after during).world listing
        (explicitCandidates specs listing) serial members := by
  obtain ⟨⟨listing, candidates, serial, members, hinstalls⟩, -⟩ := hf.installed (by simp)
    (startOperation_fetchExplicit hspecs _ _ _) h.attends hdone
  obtain rfl : explicitCandidates specs listing = candidates :=
    Except.ok.inj hinstalls.goes.candidates
  have hlisted := listedFor_of_needsListing hinstalls.goes.heard
  refine ⟨listing, serial, members, ?_, hinstalls⟩
  unfold ListedFor at hlisted
  split_ifs at hlisted ⊢
  · exact hlisted
  · exact h.answers.told hlisted

/-- Once an explicit fetch has succeeded, the same fetch on the same inventory changes nothing
unless specs differ about a listed name, and then only the handles of such names and the version. -/
theorem refetched (hf : f.Reachable) (h : Steadily A f (.fetchExplicit texts) during)
    (hdone : ((f.begin (.fetchExplicit texts)).after during).outcome? f.nextTicket = some .done)
    (hf' : f'.Reachable) (hsite : f'.site = f.site)
    (hbooks : f'.world.books = ((f.begin (.fetchExplicit texts)).after during).world.books)
    (h' : Steadily A f' (.fetchExplicit texts) during') :
    ∃ specs listing, ExplicitSpec.parseAll texts = .ok specs ∧
      (if specs.isEmpty then listing = [] else A .scaleSets = .ok listing) ∧
      (((f'.begin (.fetchExplicit texts)).after during').outcome? f'.nextTicket ≠ some .done →
        f'.world.Spared ((f'.begin (.fetchExplicit texts)).after during').world) ∧
      (((f'.begin (.fetchExplicit texts)).after during').outcome? f'.nextTicket = some .done →
        Refetched specs listing f'.world
          ((f'.begin (.fetchExplicit texts)).after during').world) := by
  obtain ⟨specs, hspecs⟩ := hf.exists_specs hdone
  obtain ⟨listing, serial, members, hlisted, hinstalls⟩ := h.installs hf hspecs hdone
  refine ⟨specs, listing, hspecs, hlisted, fun hundone ↦ ?_, fun hdone' ↦ ?_⟩
  · cases hf'.running (by simp) (startOperation_fetchExplicit hspecs _ _ _) h'.attends
      (List.prefix_refl _) with
    | underWay _ _ hspared => exact hspared
    | failed _ _ hspared => exact hspared
    | done hdone' => exact absurd hdone' hundone
  · obtain ⟨listing', serial', members', hlisted', hinstalls'⟩ := h'.installs hf' hspecs hdone'
    obtain rfl : listing' = listing := by
      split_ifs at hlisted hlisted'
      · exact hlisted'.trans hlisted.symm
      · exact Except.ok.inj (hlisted'.symm.trans hlisted)
    have hregisters := registers_of_install hinstalls.books hinstalls.cells
    have hagain : f'.world.registry = _ :=
      (congrArg Books.registry hbooks).trans (congrArg Books.registry hinstalls.books)
    have hpinned : f'.world.pinned = ((f.begin (.fetchExplicit texts)).after during).world.pinned :=
      congrArg Books.pinned hbooks
    have hgroups : f'.world.registry.groups =
        (placeGroups f.world.registry.groups
          (handles serial (explicitCandidates specs listing'))).1 := by
      rw [hagain]
      exact groups_explicit _ _ _
    have hnames : (planFrom (.explicit specs) f'.world (explicitCandidates specs listing')
          serial').groups.map NodeGroup.name =
        (planFrom (.explicit specs) f.world (explicitCandidates specs listing')
          serial).groups.map NodeGroup.name := by
      show (placeGroups f'.world.registry.groups _).1.map NodeGroup.name = _
      rw [hgroups]
      exact names_placeGroups_again (reissued_handles _ _ _) _
    have htold := h.answers.members hinstalls.told
    have htold' := h'.answers.members hinstalls'.told
    rw [hnames, hsite] at htold'
    obtain rfl : members' = members := List.right_unique_forall₂' (told_unique _) htold' htold
    refine refetched_of_install ?_ hagain hinstalls'.goes.new hinstalls'.books hinstalls'.cells
    intro key hkey
    rw [hpinned]
    exact (hregisters.pinned key).mpr (Or.inr hkey)

def soloSite : Site :=
  ⟨"rg", .ofSeconds 30, .ofSeconds 60, []⟩

/-- One scale set. -/
def soloAccount : Account :=
  Account.empty.setScaleSets "rg" [⟨"a", .empty, 1⟩]

def soloFleet : Fleet Rat :=
  fresh soloSite (.account soloAccount) .empty none

/-- Specs of its name with different bounds. -/
def wavering : List String :=
  ["1:3:a", "1:5:a"]

/-- They have been fetched, and the size of the group got known after that. -/
def sizedFleet : Fleet Rat :=
  soloFleet.after [.begin (.fetchExplicit wavering),
    .begin (.size ⟨1, "a", ⟨1, 5⟩, defaultSizePeriod⟩)]

theorem reachable_soloFleet : soloFleet.Reachable :=
  ⟨soloSite, .account soloAccount, .empty, none, [], rfl⟩

theorem reachable_sizedFleet : sizedFleet.Reachable :=
  ⟨soloSite, .account soloAccount, .empty, none, _, rfl⟩

/-- What the account of the one scale set answers. -/
def soloAnswer (q : Query) : Except CloudError q.Answer :=
  soloFleet.world.answer "rg" q

theorem steadily_soloFleet : Steadily soloAnswer soloFleet (.fetchExplicit wavering) [] := by
  refine ⟨by simp, fun before hbefore q ↦ ?_⟩
  rcases List.prefix_cons_iff.mp hbefore with rfl | ⟨rest, rfl, hnil⟩
  · rfl
  · obtain rfl := List.prefix_nil.mp hnil
    cases q <;> rfl

theorem steadily_sizedFleet : Steadily soloAnswer sizedFleet (.fetchExplicit wavering) [] := by
  refine ⟨by simp, fun before hbefore q ↦ ?_⟩
  rcases List.prefix_cons_iff.mp hbefore with rfl | ⟨rest, rfl, hnil⟩
  · cases q <;> rfl
  · obtain rfl := List.prefix_nil.mp hnil
    cases q <;> rfl

theorem refetched_of_wavering :
    (∃ specs listing, ExplicitSpec.parseAll wavering = .ok specs ∧
      Refetched specs listing sizedFleet.world
        (sizedFleet.begin (.fetchExplicit wavering)).world) ∧
      (sizedFleet.world.registry.groups.map fun g ↦ (g.serial, g.name, g.bounds)) =
        [(1, "a", ⟨1, 5⟩)] ∧
      ((sizedFleet.begin (.fetchExplicit wavering)).world.registry.groups.map fun g ↦
        (g.serial, g.name, g.bounds)) = [(3, "a", ⟨1, 5⟩)] := by
  have hover :
      ((soloFleet.begin (.fetchExplicit wavering)).outcome? 0).any Outcome.isDone = true := by
    decide +kernel
  have hover' : ((sizedFleet.begin (.fetchExplicit wavering)).outcome? 2).any
      Outcome.isDone = true := by
    decide +kernel
  obtain ⟨specs, listing, hspecs, -, -, hrefetched⟩ :=
    refetched reachable_soloFleet steadily_soloFleet
    (Outcome.eq_done hover) reachable_sizedFleet rfl rfl steadily_sizedFleet
  exact ⟨⟨specs, listing, hspecs, hrefetched (Outcome.eq_done hover')⟩, by decide +kernel,
    by decide +kernel⟩

/-- A fetch done again need leave neither the version nor the handles nor the sizes as they were. -/
theorem changed_by_refetch :
    ¬ ∀ (f f' : Fleet Rat) (A : (q : Query) → Except CloudError q.Answer) (texts : List String),
      f.Reachable → Steadily A f (.fetchExplicit texts) [] →
      (f.begin (.fetchExplicit texts)).outcome? f.nextTicket = some .done →
      f'.Reachable → f'.site = f.site →
      f'.world.books = (f.begin (.fetchExplicit texts)).world.books →
      Steadily A f' (.fetchExplicit texts) [] →
      (f'.begin (.fetchExplicit texts)).outcome? f'.nextTicket = some .done →
      (f'.begin (.fetchExplicit texts)).world.registry.version = f'.world.registry.version ∨
      (f'.begin (.fetchExplicit texts)).world.registry.groups = f'.world.registry.groups ∨
      ((f'.begin (.fetchExplicit texts)).world.registry.groups.map fun g ↦
          ((f'.begin (.fetchExplicit texts)).world.cell g).size) =
        f'.world.registry.groups.map fun g ↦ (f'.world.cell g).size := by
  intro h
  have hover :
      ((soloFleet.begin (.fetchExplicit wavering)).outcome? 0).any Outcome.isDone = true := by
    decide +kernel
  have hover' : ((sizedFleet.begin (.fetchExplicit wavering)).outcome? 2).any
      Outcome.isDone = true := by
    decide +kernel
  have hsame := h soloFleet sizedFleet soloAnswer wavering reachable_soloFleet steadily_soloFleet
    (Outcome.eq_done hover) reachable_sizedFleet rfl rfl steadily_sizedFleet
    (Outcome.eq_done hover')
  revert hsame
  decide +kernel

end Fleet

end NodeFleet
