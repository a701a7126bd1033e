import NodeFleet.Proofs.Planning
/-!
Cycles that run alone, each on an inventory that answers at once, and the books that they leave: the
registry and the pins. A journal is read as a serial history in this sense; a turn that was written
over while it was under way is read with the writes that came between its plan and its end.
-/

set_option autoImplicit false
set_option relaxedAutoImplicit false

namespace NodeFleet.Fleet

open NodeFleet.Discovery

/-- The inventory as a cycle sees it. -/
structure Inventory where
  scaleSets : Except Error (List ScaleSet)
  members : String → Except Error (List Member)

namespace Inventory

/-- The members of the groups; the first group that cannot be asked fails them all. -/
def gather (v : Inventory) (groups : List NodeGroup) : Except Error (List (String × List Member)) :=
  groups.mapM fun g ↦ (membersOrNone (v.members g.name)).map fun members ↦ (g.name, members)

end Inventory

/-- What cycles read and write. -/
structure Books where
  registry : Snapshot
  pinned : List String

namespace Write

def apply (s : Snapshot) : Write → Snapshot
  | register g => (s.register g).1
  | unregister name => (s.unregister name).1
  | replace groups instances => s.replace groups instances

/-- A write by which names stay distinct. -/
def Orderly : Write → Prop
  | replace _ _ => False
  | _ => True

end Write

namespace Books

def empty : Books := ⟨.empty, []⟩

def write (b : Books) (x : Write) : Books :=
  { b with registry := x.apply b.registry }

def install (b : Books) (plan : Plan) (index : Table String) : Books :=
  ⟨plan.commit b.registry index, b.pinned ++ plan.pins.filter (· ∉ b.pinned)⟩

end Books

/-- The groups of candidates, with serial numbers from the given one on. -/
def handles (serial : Nat) : List Candidate → List NodeGroup
  | [] => []
  | c :: rest => ⟨serial, c.name, c.bounds, defaultSizePeriod⟩ :: handles (serial + 1) rest

namespace Cycle

/-- The listing that a cycle goes by; one that looks for nothing goes by the empty listing. -/
def listing (site : Site) (v : Inventory) (cycle : Cycle) : Except Error (List ScaleSet) :=
  if cycle.needsListing site then v.scaleSets else .ok []

/-- The plan and the member index to which a cycle comes that runs alone on an inventory. -/
def outcome (site : Site) (v : Inventory) (serial : Nat) (b : Books) (cycle : Cycle) :
    Except Error (Plan × Table String) :=
  match (cycle.listing site v).bind fun l ↦ cycle.candidates site l with
  | .error e => .error e
  | .ok candidates =>
    let plan := cycle.plan b.registry b.pinned (handles serial candidates)
    (v.gather plan.groups).map fun members ↦ (plan, memberIndex members)

end Cycle

namespace Turn

/-- The inventory that the answers make which the turn got; a group that it did not ask about has no
members. -/
def inventory (t : Turn) : Inventory :=
  ⟨t.brief.listed, fun name ↦ (lookup name t.told).getD (.ok [])⟩

def outcome (site : Site) (b : Books) (t : Turn) : Except Error (Plan × Table String) :=
  t.brief.cycle.outcome site t.inventory t.brief.serial b

/-- The books on which a turn ends that began on `b`. -/
def overwritten (b : Books) (t : Turn) : Books :=
  t.meanwhile.foldl Books.write b

/-- The books after a turn that planned on one state of the books and ended on another. -/
def effect (site : Site) (planned ended : Books) (t : Turn) : Books :=
  match t.outcome site planned with
  | .error _ => ended
  | .ok (plan, index) => ended.install plan index

/-- Whether result and snapshot of a turn are those of its cycle run alone, and whether a turn that
succeeded was told about all of its groups. -/
def Faithful (site : Site) (planned ended : Books) (t : Turn) : Prop :=
  match t.outcome site planned with
  | .error e => t.result = .error e ∧ t.installed = none
  | .ok (plan, index) =>
    t.result = .ok () ∧ t.installed = plan.installed? ended.registry index ∧
      t.told.map Prod.fst = plan.groups.map NodeGroup.name

end Turn

namespace Deed

def after (site : Site) (b : Books) : Deed → Books
  | write x => b.write x
  | turn t => t.effect site b (t.overwritten b)

def turn? : Deed → Option Turn
  | write _ => none
  | turn t => some t

def writes : Deed → List Write
  | write x => [x]
  | turn t => t.meanwhile

end Deed

/-- The books after a history of deeds. -/
def booksAfter (site : Site) (b : Books) (deeds : List Deed) : Books :=
  deeds.foldl (Deed.after site) b

/-- Whether every turn of a history is faithful. -/
def Faithful (site : Site) : Books → List Deed → Prop
  | _, [] => True
  | b, .write x :: rest => Faithful site (b.write x) rest
  | b, .turn t :: rest =>
    t.Faithful site b (t.overwritten b) ∧ Faithful site (t.effect site b (t.overwritten b)) rest

namespace Journal

def turns (j : Journal) : List Turn :=
  j.deeds.filterMap Deed.turn?

def writes (j : Journal) : List Write :=
  j.deeds.flatMap Deed.writes ++ j.pending

/-- The books on which the present cycle planned, if there is one that has. -/
def planned (site : Site) (j : Journal) : Books :=
  booksAfter site .empty j.deeds

def books (site : Site) (j : Journal) : Books :=
  j.pending.foldl Books.write (j.planned site)

def Faithful (site : Site) (j : Journal) : Prop :=
  Fleet.Faithful site .empty j.deeds

/-- All cycles that got the gate have ended. -/
def Free (j : Journal) : Prop :=
  j.holders = j.turns.map fun t ↦ t.brief.ticket

/-- All cycles that got the gate have ended but for the last one, which is that of the ticket. -/
def HeldBy (j : Journal) (t : Ticket) : Prop :=
  j.holders = (j.turns.map fun t ↦ t.brief.ticket) ++ [t]

end Journal

/-! ### Histories -/

theorem booksAfter_append (site : Site) (b : Books) (first second : List Deed) :
    booksAfter site b (first ++ second) = booksAfter site (booksAfter site b first) second :=
  List.foldl_append

theorem booksAfter_writes (site : Site) (b : Books) (xs : List Write) :
    booksAfter site b (xs.map .write) = xs.foldl Books.write b := by
  rw [booksAfter, List.foldl_map]
  rfl

theorem faithful_append (site : Site) (b : Books) (first second : List Deed) :
    Faithful site b (first ++ second) ↔
      Faithful site b first ∧ Faithful site (booksAfter site b first) second := by
  induction first generalizing b with
  | nil => simp [Faithful, booksAfter]
  | cons d rest ih =>
    cases d with
    | write x => exact ih (b.write x)
    | turn t =>
      simp only [List.cons_append, Faithful, ih, and_assoc]
      rfl

theorem faithful_writes (site : Site) (b : Books) (xs : List Write) :
    Faithful site b (xs.map .write) := by
  induction xs generalizing b with
  | nil => trivial
  | cons x rest ih => exact ih (b.write x)

/-! ### Cycles that run alone -/

/-- A cycle that runs alone comes to the plan of its candidates and the index of its groups. -/
theorem Cycle.outcome_eq_ok {site : Site} {v : Inventory} {serial : Nat} {b : Books}
    {cycle : Cycle} {plan : Plan} {index : Table String} :
    cycle.outcome site v serial b = .ok (plan, index) ↔
      ∃ candidates members,
        ((cycle.listing site v).bind fun l ↦ cycle.candidates site l) = .ok candidates ∧
          plan = cycle.plan b.registry b.pinned (handles serial candidates) ∧
            v.gather plan.groups = .ok members ∧ index = memberIndex members := by
  unfold Cycle.outcome
  cases (cycle.listing site v).bind fun l ↦ cycle.candidates site l with
  | error e =>
    constructor
    · intro h
      simp at h
    · rintro ⟨candidates, members, h, -⟩
      simp at h
  | ok candidates =>
    dsimp only
    cases hgather :
        v.gather (cycle.plan b.registry b.pinned (handles serial candidates)).groups with
    | error e =>
      constructor
      · intro h
        cases h
      · rintro ⟨_, members, hc, rfl, hmembers, -⟩
        obtain rfl := Except.ok.inj hc
        rw [hgather] at hmembers
        simp at hmembers
    | ok members =>
      constructor
      · intro h
        obtain ⟨rfl, rfl⟩ := Prod.mk.inj (Except.ok.inj h)
        exact ⟨candidates, members, rfl, rfl, hgather, rfl⟩
      · rintro ⟨_, _, hc, rfl, hmembers, rfl⟩
        obtain rfl := Except.ok.inj hc
        rw [hgather] at hmembers
        obtain rfl := Except.ok.inj hmembers
        rfl

/-! ### Distinct names -/

theorem groups_register (s : Snapshot) (g : NodeGroup) :
    (s.register g).1.groups = (placeGroup g s.groups).1 := by
  unfold Snapshot.register
  rcases hplaced : placeGroup g s.groups with ⟨groups, _ | _⟩
  · have hsame := placeGroup_of_unchanged (congrArg Prod.snd hplaced)
    rw [hplaced] at hsame
    exact hsame.symm
  · rfl

theorem groups_unregister (s : Snapshot) (name : String) :
    (s.unregister name).1.groups = s.groups.filter fun g ↦ ¬ g.Named name := by
  unfold Snapshot.unregister
  dsimp only
  split_ifs with hlength
  · exact (List.filter_eq_self.mpr (List.length_filter_eq_length_iff.mp hlength)).symm
  · rfl

theorem Write.Orderly.distinct {x : Write} (hx : x.Orderly) {s : Snapshot}
    (h : Distinct s.groups) : Distinct (x.apply s).groups := by
  cases x with
  | register g =>
    show Distinct (s.register g).1.groups
    rw [groups_register]
    exact h.placeGroup g
  | unregister name =>
    show Distinct (s.unregister name).1.groups
    rw [groups_unregister]
    exact (List.filter_sublist.map NodeGroup.key).nodup h
  | replace groups instances => exact hx.elim

theorem distinct_overwritten {b : Books} {xs : List Write} (hx : ∀ x ∈ xs, x.Orderly)
    (h : Distinct b.registry.groups) : Distinct (xs.foldl Books.write b).registry.groups := by
  induction xs generalizing b with
  | nil => exact h
  | cons x rest ih =>
    have hfirst : Distinct (b.write x).registry.groups := (hx x (by simp)).distinct h
    exact ih (fun y hy ↦ hx y (List.mem_cons_of_mem _ hy)) hfirst

theorem Turn.distinct_effect {site : Site} {planned ended : Books}
    (hplanned : Distinct planned.registry.groups) (hended : Distinct ended.registry.groups)
    (t : Turn) : Distinct (t.effect site planned ended).registry.groups := by
  unfold Turn.effect
  rcases ho : t.outcome site planned with e | ⟨plan, index⟩
  · exact hended
  · obtain ⟨candidates, members, -, rfl, -⟩ := Cycle.outcome_eq_ok.mp ho
    show Distinct (Plan.commit _ ended.registry index).groups
    unfold Plan.commit Plan.installed?
    split_ifs
    · exact hended
    · exact distinct_plan _ hplanned _ _

/-- Names stay distinct through a history without replacements. -/
theorem distinct_booksAfter {site : Site} {b : Books} {deeds : List Deed}
    (hd : ∀ x ∈ deeds.flatMap Deed.writes, x.Orderly) (h : Distinct b.registry.groups) :
    Distinct (booksAfter site b deeds).registry.groups := by
  induction deeds generalizing b with
  | nil => exact h
  | cons d rest ih =>
    rw [List.flatMap_cons] at hd
    have hfirst : ∀ x ∈ d.writes, x.Orderly := fun x hx ↦ hd x (List.mem_append_left _ hx)
    refine ih (b := d.after site b) (fun x hx ↦ hd x (List.mem_append_right _ hx)) ?_
    cases d with
    | write x => exact (hfirst x (List.mem_singleton_self x)).distinct h
    | turn t => exact t.distinct_effect h (distinct_overwritten hfirst h)

theorem distinct_empty : Distinct Books.empty.registry.groups :=
  List.nodup_nil

/-! ### Journals -/

namespace Journal

variable (j : Journal)

@[simp] theorem turns_giveGate (t : Ticket) : (j.giveGate t).turns = j.turns := rfl

theorem turns_settle : j.settle.turns = j.turns := by
  have hnone : (j.pending.map Deed.write).filterMap Deed.turn? = [] := by
    rw [List.filterMap_eq_nil_iff]
    intro d hd
    obtain ⟨x, -, rfl⟩ := List.mem_map.mp hd
    rfl
  simp [turns, settle, List.filterMap_append, hnone]

theorem turns_close (b : Brief) (told : List (String × Except Error (List Member)))
    (installed : Option Snapshot) (result : Except Error Unit) :
    (j.close b told installed result).turns =
      j.turns ++ [⟨b, told, j.pending, installed, result⟩] := by
  simp [turns, close, List.filterMap_append, Deed.turn?]

theorem writes_write (x : Write) : (j.write x).writes = j.writes ++ [x] := by
  simp [writes, write]

theorem writes_settle : j.settle.writes = j.writes := by
  have hsame : (j.pending.map Deed.write).flatMap Deed.writes = j.pending := by
    rw [List.flatMap_map]
    exact List.flatMap_singleton' _
  simp [writes, settle, hsame]

theorem writes_close (b : Brief) (told : List (String × Except Error (List Member)))
    (installed : Option Snapshot) (result : Except Error Unit) :
    (j.close b told installed result).writes = j.writes := by
  simp [writes, close, Deed.writes]

variable (site : Site)

theorem books_write (x : Write) : (j.write x).books site = (j.books site).write x := by
  simp [books, write, planned]

theorem planned_settle : j.settle.planned site = j.books site := by
  simp only [planned, settle, booksAfter_append, booksAfter_writes]
  rfl

theorem books_settle : j.settle.books site = j.books site :=
  j.planned_settle site

theorem books_close (b : Brief) (told : List (String × Except Error (List Member)))
    (installed : Option Snapshot) (result : Except Error Unit) :
    (j.close b told installed result).books site =
      Turn.effect site (j.planned site) (j.books site)
        ⟨b, told, j.pending, installed, result⟩ := by
  simp only [books, close, planned, booksAfter_append, List.foldl_nil]
  rfl

variable {j site}

theorem Faithful.settle (h : j.Faithful site) : j.settle.Faithful site :=
  (faithful_append site _ _ _).mpr ⟨h, faithful_writes site _ _⟩

theorem Faithful.close (h : j.Faithful site) {b : Brief}
    {told : List (String × Except Error (List Member))} {installed : Option Snapshot}
    {result : Except Error Unit}
    (ht : Turn.Faithful site (j.planned site) (j.books site)
      ⟨b, told, j.pending, installed, result⟩) :
    (j.close b told installed result).Faithful site :=
  (faithful_append site _ _ _).mpr ⟨h, ht, trivial⟩

end Journal

end NodeFleet.Fleet
