import NodeFleet.Proofs.Serial
/-!
Versions of a registry that is written directly. A registration deals with the one group of its
name, an unregistration takes it away, and neither touches another group or the index; what they
return tells whether they did anything. Each write that changes something makes the next version,
and a replacement always does, so that a version stands for one content.

Entries of the index may outlive their groups. They lead nowhere until a group of their name is
there again, and then to that group.
-/

set_option autoImplicit false
set_option relaxedAutoImplicit false

namespace NodeFleet

open NodeFleet.Fleet

variable {s : Snapshot} {g h : NodeGroup} {groups before later : List NodeGroup} {name : String}

/-! ### The group of a name -/

/-- A group finds the first group of its name and takes its place if the bounds differ, or it comes
to the end. -/
theorem placeGroup_cases (g : NodeGroup) (groups : List NodeGroup) :
    (∃ before h later, groups = before ++ h :: later ∧ h.key = g.key ∧
      placeGroup g groups =
        if h.bounds = g.bounds then (groups, false) else (before ++ g :: later, true)) ∨
    g.key ∉ keys groups ∧ placeGroup g groups = (groups ++ [g], true) := by
  induction groups with
  | nil => exact Or.inr ⟨List.not_mem_nil, rfl⟩
  | cons first rest ih =>
    rw [placeGroup_cons]
    by_cases hk : first.key = g.key
    · rw [if_pos hk]
      exact Or.inl ⟨[], first, rest, rfl, hk, rfl⟩
    · rw [if_neg hk]
      rcases ih with ⟨before, h, later, rfl, hh, hplaced⟩ | ⟨hout, hplaced⟩
      · refine Or.inl ⟨first :: before, h, later, rfl, hh, ?_⟩
        rw [hplaced]
        split_ifs <;> rfl
      · refine Or.inr ⟨fun hin ↦ ?_, by rw [hplaced]; rfl⟩
        rcases List.mem_cons.mp hin with hfirst | hrest
        · exact hk hfirst.symm
        · exact hout hrest

/-- Among distinct names no other group has the name of one that is there. -/
theorem Distinct.not_named (hd : Distinct (before ++ h :: later)) (hn : h.Named name)
    (hg : g ∈ before ++ later) : ¬ g.Named name := by
  have hmiddle : Distinct (h :: (before ++ later)) :=
    (List.perm_middle.map NodeGroup.key).nodup_iff.mp hd
  intro hname
  have hkey : g.key = h.key := Eq.trans hname hn.symm
  exact (List.nodup_cons.mp hmiddle).1 (hkey ▸ List.mem_map_of_mem hg)

namespace Snapshot

/-! ### Single writes -/

theorem register_cases (s : Snapshot) (g : NodeGroup) :
    (∃ h ∈ s.groups, h.Named g.name ∧ h.bounds = g.bounds ∧ s.register g = (s, false)) ∨
    (∃ before h later, s.groups = before ++ h :: later ∧ h.Named g.name ∧ h.bounds ≠ g.bounds ∧
      s.register g = (⟨s.version + 1, before ++ g :: later, s.instances⟩, true)) ∨
    (∀ h ∈ s.groups, ¬ h.Named g.name) ∧
      s.register g = (⟨s.version + 1, s.groups ++ [g], s.instances⟩, true) := by
  unfold register
  rcases placeGroup_cases g s.groups with
    ⟨before, h, later, hsplit, hname, hplaced⟩ | ⟨hout, hplaced⟩
  · rw [hplaced]
    split_ifs with hb
    · refine Or.inl ⟨h, ?_, hname, hb, rfl⟩
      rw [hsplit]
      exact List.mem_append_right _ List.mem_cons_self
    · exact Or.inr (Or.inl ⟨before, h, later, hsplit, hname, hb, rfl⟩)
  · rw [hplaced]
    exact Or.inr (Or.inr ⟨fun h hh hname ↦ hout (List.mem_map.mpr ⟨h, hh, hname⟩), rfl⟩)

theorem unregister_cases (hd : Distinct s.groups) (name : String) :
    (∃ before h later, s.groups = before ++ h :: later ∧ h.Named name ∧
      s.unregister name = (⟨s.version + 1, before ++ later, s.instances⟩, true)) ∨
    (∀ h ∈ s.groups, ¬ h.Named name) ∧ s.unregister name = (s, false) := by
  unfold unregister
  dsimp only
  by_cases hfound : ∃ h ∈ s.groups, h.Named name
  · obtain ⟨h, hh, hname⟩ := hfound
    obtain ⟨before, later, hsplit⟩ := List.append_of_mem hh
    rw [hsplit] at hd
    have hrest : ∀ l, List.Sublist l (before ++ later) →
        (l.filter fun g ↦ ¬ g.Named name) = l := fun l hl ↦
      List.filter_eq_self.mpr fun g hg ↦ decide_eq_true (hd.not_named hname (hl.subset hg))
    have hgroups : (s.groups.filter fun g ↦ ¬ g.Named name) = before ++ later := by
      rw [hsplit, List.filter_append, List.filter_cons_of_neg (by simpa using hname),
        hrest _ (List.sublist_append_left _ _), hrest _ (List.sublist_append_right _ _)]
    have hlength : (before ++ later).length ≠ s.groups.length := by
      simp [hsplit]
    rw [hgroups, if_neg hlength]
    exact Or.inl ⟨before, h, later, hsplit, hname, rfl⟩
  · have hnobody : ∀ h ∈ s.groups, ¬ h.Named name := fun h hh hname ↦ hfound ⟨h, hh, hname⟩
    have hgroups : (s.groups.filter fun g ↦ ¬ g.Named name) = s.groups :=
      List.filter_eq_self.mpr fun g hg ↦ decide_eq_true (hnobody g hg)
    rw [hgroups, if_pos rfl]
    exact Or.inr ⟨hnobody, rfl⟩

/-- What a registration comes to. -/
structure Registers (s : Snapshot) (g : NodeGroup) : Prop where
  refused : (s.register g).2 = false ↔ ∃ h ∈ s.groups, h.Named g.name ∧ h.bounds = g.bounds
  unchanged : (s.register g).2 = false → (s.register g).1 = s
  instances : (s.register g).1.instances = s.instances
  placed : (s.register g).2 = true →
    (∃ before h later, s.groups = before ++ h :: later ∧ h.Named g.name ∧
      (s.register g).1.groups = before ++ g :: later) ∨
    (∀ h ∈ s.groups, ¬ h.Named g.name) ∧ (s.register g).1.groups = s.groups ++ [g]

/-- What an unregistration comes to. -/
structure Unregisters (s : Snapshot) (name : String) : Prop where
  found : (s.unregister name).2 = true ↔ ∃ h ∈ s.groups, h.Named name
  unchanged : (s.unregister name).2 = false → (s.unregister name).1 = s
  instances : (s.unregister name).1.instances = s.instances
  removed : (s.unregister name).2 = true →
    ∃ before h later, s.groups = before ++ h :: later ∧ h.Named name ∧
      (s.unregister name).1.groups = before ++ later

theorem registers (hd : Distinct s.groups) (g : NodeGroup) : s.Registers g := by
  rcases s.register_cases g with
    ⟨h, hh, hname, hb, heq⟩ | ⟨before, h, later, hsplit, hname, hb, heq⟩ | ⟨hnobody, heq⟩
  · refine ⟨iff_of_true ?_ ⟨h, hh, hname, hb⟩, fun _ ↦ ?_, ?_, fun hplaced ↦ ?_⟩
    · rw [heq]
    · rw [heq]
    · rw [heq]
    · rw [heq] at hplaced
      cases hplaced
  · refine ⟨iff_of_false ?_ ?_, fun hrefused ↦ ?_, ?_, fun _ ↦ Or.inl ?_⟩
    · rw [heq]
      exact Bool.noConfusion
    · rintro ⟨h', hh', hname', hb'⟩
      rw [hsplit] at hd hh'
      rcases List.mem_cons.mp (List.perm_middle.mem_iff.mp hh') with rfl | hrest
      · exact hb hb'
      · exact hd.not_named hname hrest hname'
    · rw [heq] at hrefused
      cases hrefused
    · rw [heq]
    · exact ⟨before, h, later, hsplit, hname, by rw [heq]⟩
  · refine ⟨iff_of_false ?_ ?_, fun hrefused ↦ ?_, ?_, fun _ ↦ Or.inr ⟨hnobody, ?_⟩⟩
    · rw [heq]
      exact Bool.noConfusion
    · exact fun ⟨h, hh, hname, _⟩ ↦ hnobody h hh hname
    · rw [heq] at hrefused
      cases hrefused
    · rw [heq]
    · rw [heq]

theorem unregisters (hd : Distinct s.groups) (name : String) : s.Unregisters name := by
  rcases unregister_cases hd name with ⟨before, h, later, hsplit, hname, heq⟩ | ⟨hnobody, heq⟩
  · have hh : h ∈ s.groups := by
      rw [hsplit]
      exact List.mem_append_right _ List.mem_cons_self
    refine ⟨iff_of_true ?_ ⟨h, hh, hname⟩, fun hmissed ↦ ?_, ?_, fun _ ↦ ?_⟩
    · rw [heq]
    · rw [heq] at hmissed
      cases hmissed
    · rw [heq]
    · exact ⟨before, h, later, hsplit, hname, by rw [heq]⟩
  · refine ⟨iff_of_false ?_ ?_, fun _ ↦ ?_, ?_, fun hremoved ↦ ?_⟩
    · rw [heq]
      exact Bool.noConfusion
    · exact fun ⟨h, hh, hname⟩ ↦ hnobody h hh hname
    · rw [heq]
    · rw [heq]
    · rw [heq] at hremoved
      cases hremoved

end Snapshot

/-! ### Histories of writes -/

/-- Whether a write changes the groups; a replacement always counts. -/
def Fleet.Write.Counts (s : Snapshot) : Write → Prop
  | .replace _ _ => True
  | x => (x.apply s).groups ≠ s.groups

instance (s : Snapshot) (x : Write) : Decidable (x.Counts s) :=
  match x with
  | .register _ => inferInstanceAs (Decidable (_ ≠ _))
  | .unregister _ => inferInstanceAs (Decidable (_ ≠ _))
  | .replace _ _ => inferInstanceAs (Decidable True)

/-- A write that names no group twice. -/
def Fleet.Write.Tidy : Write → Prop
  | .replace groups _ => Distinct groups
  | _ => True

/-- A registration tells whether it counts. -/
theorem Fleet.Write.counts_register_iff (s : Snapshot) (g : NodeGroup) :
    (Write.register g).Counts s ↔ (s.register g).2 = true := by
  show (s.register g).1.groups ≠ s.groups ↔ _
  rcases s.register_cases g with
    ⟨h, -, -, -, heq⟩ | ⟨before, h, later, hsplit, -, hb, heq⟩ | ⟨-, heq⟩
  · rw [heq]
    exact iff_of_false (fun hcounts ↦ hcounts rfl) Bool.noConfusion
  · rw [heq]
    refine iff_of_true (fun hsame ↦ hb ?_) rfl
    have htail := List.append_cancel_left (hsame.trans hsplit)
    exact congrArg NodeGroup.bounds (List.cons.inj htail).1.symm
  · rw [heq]
    exact iff_of_true (by simp) rfl

/-- An unregistration tells whether it counts. -/
theorem Fleet.Write.counts_unregister_iff (hd : Distinct s.groups) (name : String) :
    (Write.unregister name).Counts s ↔ (s.unregister name).2 = true := by
  show (s.unregister name).1.groups ≠ s.groups ↔ _
  rcases Snapshot.unregister_cases hd name with ⟨before, h, later, hsplit, -, heq⟩ | ⟨-, heq⟩
  · rw [heq]
    exact iff_of_true (by simp [hsplit]) rfl
  · rw [heq]
    exact iff_of_false (fun hcounts ↦ hcounts rfl) Bool.noConfusion

/-- A write does nothing, or it counts and makes the next version. -/
theorem Fleet.Write.apply_cases {x : Write} (hd : Distinct s.groups) :
    ¬ x.Counts s ∧ x.apply s = s ∨ x.Counts s ∧ (x.apply s).version = s.version + 1 := by
  cases x with
  | register g =>
    rw [counts_register_iff]
    show _ ∧ (s.register g).1 = s ∨ _ ∧ (s.register g).1.version = s.version + 1
    rcases s.register_cases g with ⟨h, -, -, -, heq⟩ | ⟨before, h, later, -, -, -, heq⟩ | ⟨-, heq⟩
    · exact Or.inl (by simp [heq])
    · exact Or.inr (by simp [heq])
    · exact Or.inr (by simp [heq])
  | unregister name =>
    rw [counts_unregister_iff hd]
    show _ ∧ (s.unregister name).1 = s ∨ _ ∧ (s.unregister name).1.version = s.version + 1
    rcases Snapshot.unregister_cases hd name with ⟨before, h, later, -, -, heq⟩ | ⟨-, heq⟩
    · exact Or.inr (by simp [heq])
    · exact Or.inl (by simp [heq])
  | replace groups instances => exact Or.inr ⟨trivial, rfl⟩

theorem Fleet.Write.Tidy.distinct {x : Write} (hx : x.Tidy) (hd : Distinct s.groups) :
    Distinct (x.apply s).groups := by
  cases x with
  | register g => exact Orderly.distinct (x := .register g) trivial hd
  | unregister name => exact Orderly.distinct (x := .unregister name) trivial hd
  | replace groups instances => exact hx

namespace Snapshot

/-- The snapshot after writes, one after the other. -/
def written (s : Snapshot) (xs : List Write) : Snapshot :=
  xs.foldl Write.apply s

/-- How many of them count. -/
def count (s : Snapshot) : List Write → Nat
  | [] => 0
  | x :: rest => (if x.Counts s then 1 else 0) + (x.apply s).count rest

variable {xs : List Write}

theorem distinct_written (hd : Distinct s.groups) (hx : ∀ x ∈ xs, x.Tidy) :
    Distinct (s.written xs).groups := by
  induction xs generalizing s with
  | nil => exact hd
  | cons x rest ih =>
    obtain ⟨hfirst, hrest⟩ := List.forall_mem_cons.mp hx
    exact ih (hfirst.distinct hd) hrest

theorem version_written (hd : Distinct s.groups) (hx : ∀ x ∈ xs, x.Tidy) :
    (s.written xs).version = s.version + s.count xs := by
  induction xs generalizing s with
  | nil => rfl
  | cons x rest ih =>
    obtain ⟨hfirst, hrest⟩ := List.forall_mem_cons.mp hx
    have hlater : ((x.apply s).written rest).version =
        (x.apply s).version + (x.apply s).count rest :=
      ih (hfirst.distinct hd) hrest
    show ((x.apply s).written rest).version = s.version + ((if x.Counts s then 1 else 0) + _)
    rcases Write.apply_cases (x := x) hd with ⟨hcounts, hsame⟩ | ⟨hcounts, hnext⟩
    · rw [hlater, if_neg hcounts, Nat.zero_add, hsame]
    · rw [hlater, if_pos hcounts, hnext, Nat.add_assoc]

/-- Writes of which none counts leave the very snapshot. -/
theorem written_of_count (hd : Distinct s.groups) (hx : ∀ x ∈ xs, x.Tidy) (h : s.count xs = 0) :
    s.written xs = s := by
  induction xs generalizing s with
  | nil => rfl
  | cons x rest ih =>
    obtain ⟨hfirst, hrest⟩ := List.forall_mem_cons.mp hx
    obtain ⟨hnone, hlater⟩ := Nat.add_eq_zero_iff.mp h
    rcases Write.apply_cases (x := x) hd with ⟨-, hsame⟩ | ⟨hcounts, -⟩
    · rw [hsame] at hlater
      show (x.apply s).written rest = s
      rw [hsame]
      exact ih hd hrest hlater
    · rw [if_pos hcounts] at hnone
      cases hnone

theorem written_append (s : Snapshot) (xs ys : List Write) :
    s.written (xs ++ ys) = (s.written xs).written ys :=
  List.foldl_append

/-- A version stands for one content. -/
theorem written_eq_of_version {ys : List Write} (hd : Distinct s.groups)
    (hx : ∀ x ∈ xs ++ ys, x.Tidy) (h : (s.written (xs ++ ys)).version = (s.written xs).version) :
    s.written (xs ++ ys) = s.written xs := by
  have hearlier : Distinct (s.written xs).groups :=
    distinct_written hd fun x hm ↦ hx x (List.mem_append_left _ hm)
  have hlater : ∀ x ∈ ys, x.Tidy := fun x hm ↦ hx x (List.mem_append_right _ hm)
  rw [written_append] at h ⊢
  rw [version_written hearlier hlater] at h
  exact written_of_count hearlier hlater (Nat.add_eq_left.mp h)

theorem owner?_eq_some_iff (hd : Distinct s.groups) {id : String} {g : NodeGroup} :
    s.owner? id = some g ↔
      g ∈ s.groups ∧ ∃ name, s.instances.get? (Text.lower id) = some name ∧ g.Named name := by
  unfold owner?
  rw [Option.bind_eq_some_iff]
  constructor
  · rintro ⟨name, hentry, hfound⟩
    exact ⟨(mem_of_find? hfound).1, name, hentry, (mem_of_find? hfound).2⟩
  · rintro ⟨hg, name, hentry, hname⟩
    exact ⟨name, hentry, hd.find?_eq_some hg hname⟩

/-- The laws of a registry after writes. -/
structure Chronicled (xs : List Write) (s : Snapshot) : Prop where
  registers : ∀ g, s.Registers g
  unregisters : ∀ name, s.Unregisters name
  replaces : ∀ groups instances, (s.replace groups instances).version = s.version + 1 ∧
    (s.replace groups instances).groups = groups ∧
    (s.replace groups instances).instances = instances
  version : s.version = Snapshot.empty.count xs
  registered : ∀ g, (Write.register g).Counts s ↔ (s.register g).2 = true
  unregistered : ∀ name, (Write.unregister name).Counts s ↔ (s.unregister name).2 = true
  /-- At two moments at which the version is the same, so is the content. -/
  content : ∀ before later, before <+: xs → later <+: xs →
    (Snapshot.empty.written before).version = (Snapshot.empty.written later).version →
      Snapshot.empty.written before = Snapshot.empty.written later
  owner : ∀ id g, s.owner? id = some g ↔
    g ∈ s.groups ∧ ∃ name, s.instances.get? (Text.lower id) = some name ∧ g.Named name
  caseless : ∀ id id', Text.SameName id id' → s.owner? id = s.owner? id'

/-- Whatever has been written to a registry, it goes by its laws, if no replacement names a group
twice. -/
theorem chronicled_after (hx : ∀ x ∈ xs, x.Tidy) :
    (Snapshot.empty.written xs).Chronicled xs := by
  have hempty : Distinct Snapshot.empty.groups := distinct_empty
  have hd := distinct_written hempty hx
  have hcontent : ∀ before later, later <+: xs → before <+: later →
      (Snapshot.empty.written before).version = (Snapshot.empty.written later).version →
        Snapshot.empty.written before = Snapshot.empty.written later := by
    rintro before _ hlater ⟨rest, rfl⟩ hversion
    exact (written_eq_of_version hempty (fun x hm ↦ hx x (hlater.subset hm)) hversion.symm).symm
  refine ⟨fun g ↦ Snapshot.registers hd g, fun name ↦ Snapshot.unregisters hd name,
    fun _ _ ↦ ⟨rfl, rfl, rfl⟩, ?_, Write.counts_register_iff _, Write.counts_unregister_iff hd, ?_,
    fun id g ↦ owner?_eq_some_iff hd, ?_⟩
  · rw [version_written hempty hx]
    exact Nat.zero_add _
  · intro before later hbefore hlater hversion
    rcases List.prefix_or_prefix_of_prefix hbefore hlater with hfirst | hfirst
    · exact hcontent before later hlater hfirst hversion
    · exact (hcontent later before hbefore hfirst hversion.symm).symm
  · intro id id' hsame
    unfold owner?
    rw [show Text.lower id = Text.lower id' from hsame]

/-- An index entry whose group is taken away, and comes back under another spelling. -/
def restoring : List Write :=
  let index : Table String := .insert .empty "vm-0" "c"
  [.register ⟨0, "a", ⟨1, 2⟩, defaultSizePeriod⟩,
    .replace [⟨1, "b", ⟨1, 2⟩, defaultSizePeriod⟩, ⟨2, "c", ⟨0, 3⟩, defaultSizePeriod⟩] index,
    .register ⟨3, "B", ⟨1, 2⟩, defaultSizePeriod⟩, .unregister "C",
    .register ⟨4, "C", ⟨2, 5⟩, defaultSizePeriod⟩]

theorem chronicled_after_restoring :
    (∀ x ∈ restoring, x.Tidy) ∧ (Snapshot.empty.written restoring).Chronicled restoring ∧
      (Snapshot.empty.written restoring).version = 4 ∧
      ((Snapshot.empty.written restoring).groups.map fun g ↦ (g.serial, g.name)) =
        [(1, "b"), (4, "C")] ∧
      ((Snapshot.empty.written (restoring.take 4)).owner? "VM-0").isNone = true ∧
      ((Snapshot.empty.written restoring).owner? "VM-0").map NodeGroup.serial = some 4 := by
  have htidy : ∀ x ∈ restoring, x.Tidy := by
    have hapart : Distinct
        [⟨1, "b", ⟨1, 2⟩, defaultSizePeriod⟩, ⟨2, "c", ⟨0, 3⟩, defaultSizePeriod⟩] := by
      unfold Distinct
      decide +kernel
    simpa [restoring, Write.Tidy] using hapart
  exact ⟨htidy, chronicled_after htidy, by decide +kernel, by decide +kernel, by decide +kernel,
    by decide +kernel⟩

end Snapshot

end NodeFleet
