/-!
Finite maps with text keys, in the order in which the keys came. A key occurs once; writing a key
again keeps its place. Two tables agree when they answer alike for every key.
-/

set_option autoImplicit false
set_option relaxedAutoImplicit false

namespace NodeFleet

variable {α : Type}

/-- The first value stored under the key. -/
def lookup (key : String) : List (String × α) → Option α
  | [] => none
  | (k, v) :: rest => if k = key then some v else lookup key rest

/-- The entries with the key's value replaced in place or added at the end. -/
def store (key : String) (value : α) : List (String × α) → List (String × α)
  | [] => [(key, value)]
  | (k, v) :: rest => if k = key then (k, value) :: rest else (k, v) :: store key value rest

theorem lookup_store (key : String) (value : α) (other : String) (l : List (String × α)) :
    lookup other (store key value l) = if key = other then some value else lookup other l := by
  induction l with
  | nil => simp [store, lookup]
  | cons entry rest ih =>
    obtain ⟨k, v⟩ := entry
    by_cases hk : k = key
    · subst hk
      by_cases ho : k = other <;> simp [store, lookup, ho]
    · by_cases ho : k = other
      · subst ho
        have hne : key ≠ k := fun h ↦ hk h.symm
        simp [store, lookup, hk, hne]
      · simp [store, lookup, hk, ho, ih]

theorem mem_keys_store (key : String) (value : α) (other : String) (l : List (String × α)) :
    other ∈ (store key value l).map Prod.fst ↔ other = key ∨ other ∈ l.map Prod.fst := by
  induction l with
  | nil => simp [store]
  | cons entry rest ih =>
    obtain ⟨k, v⟩ := entry
    by_cases hk : k = key
    · subst hk
      simp [store]
    · simp only [store, hk, if_false, List.map_cons, List.mem_cons, ih]
      constructor
      · rintro (h | h | h)
        · exact Or.inr (Or.inl h)
        · exact Or.inl h
        · exact Or.inr (Or.inr h)
      · rintro (h | h | h)
        · exact Or.inr (Or.inl h)
        · exact Or.inl h
        · exact Or.inr (Or.inr h)

theorem nodup_store (key : String) (value : α) {l : List (String × α)}
    (h : (l.map Prod.fst).Nodup) : ((store key value l).map Prod.fst).Nodup := by
  induction l with
  | nil => simp [store]
  | cons entry rest ih =>
    obtain ⟨k, v⟩ := entry
    rw [List.map_cons, List.nodup_cons] at h
    by_cases hk : k = key
    · simpa [store, hk] using h
    · simp only [store, hk, if_false, List.map_cons, List.nodup_cons]
      refine ⟨fun hmem ↦ ?_, ih h.2⟩
      rcases (mem_keys_store key value k rest).mp hmem with he | hr
      · exact hk he
      · exact h.1 hr

structure Table (α : Type) where
  entries : List (String × α)
  distinct : (entries.map Prod.fst).Nodup

namespace Table

def empty : Table α := ⟨[], List.nodup_nil⟩

instance : Inhabited (Table α) := ⟨empty⟩

def get? (t : Table α) (key : String) : Option α :=
  lookup key t.entries

def insert (t : Table α) (key : String) (value : α) : Table α :=
  ⟨store key value t.entries, nodup_store key value t.distinct⟩

/-- The table of a list of entries; of two entries with one key the later counts. -/
def ofList (l : List (String × α)) : Table α :=
  l.foldl (fun t e ↦ t.insert e.1 e.2) empty

def isEmpty (t : Table α) : Bool :=
  t.entries.isEmpty

/-- Whether every entry of `t` is one of `u`. -/
def within [BEq α] (t u : Table α) : Bool :=
  t.entries.all fun e ↦ u.get? e.1 == some e.2

/-- Whether the tables answer alike for every key. -/
def agrees [BEq α] (t u : Table α) : Bool :=
  t.within u && u.within t

@[simp] theorem get?_empty (key : String) : (empty : Table α).get? key = none := rfl

theorem get?_insert (t : Table α) (key : String) (value : α) (other : String) :
    (t.insert key value).get? other = if key = other then some value else t.get? other :=
  lookup_store key value other t.entries

end Table

theorem exists_lookup {key : String} {l : List (String × α)} (h : key ∈ l.map Prod.fst) :
    ∃ value, lookup key l = some value := by
  induction l with
  | nil => cases h
  | cons e rest ih =>
    by_cases he : e.1 = key
    · exact ⟨e.2, if_pos he⟩
    · rcases List.mem_cons.mp h with h | h
      · exact absurd h.symm he
      · obtain ⟨value, hvalue⟩ := ih h
        exact ⟨value, (if_neg he).trans hvalue⟩

theorem mem_of_lookup {key : String} {value : α} {l : List (String × α)}
    (h : lookup key l = some value) : (key, value) ∈ l := by
  induction l with
  | nil => cases h
  | cons e rest ih =>
    by_cases he : e.1 = key
    · have hvalue : some e.2 = some value := (if_pos he).symm.trans h
      obtain rfl := he
      obtain rfl := Option.some.inj hvalue
      exact List.mem_cons_self
    · exact List.mem_cons_of_mem _ (ih ((if_neg he).symm.trans h))

theorem lookup_eq_some_iff {l : List (String × α)} (h : (l.map Prod.fst).Nodup) (key : String)
    (value : α) : lookup key l = some value ↔ (key, value) ∈ l := by
  induction l with
  | nil => simp [lookup]
  | cons entry rest ih =>
    obtain ⟨k, v⟩ := entry
    rw [List.map_cons, List.nodup_cons] at h
    by_cases hk : k = key
    · subst hk
      have hrest : (k, value) ∉ rest := fun hm ↦
        h.1 (List.mem_map.mpr ⟨(k, value), hm, rfl⟩)
      simp [lookup, hrest, eq_comm]
    · have hk' : key ≠ k := fun e ↦ hk e.symm
      simp [lookup, hk, hk', ih h.2]

namespace Table

theorem get?_eq_some_iff (t : Table α) (key : String) (value : α) :
    t.get? key = some value ↔ (key, value) ∈ t.entries :=
  lookup_eq_some_iff t.distinct key value

theorem within_iff [BEq α] [LawfulBEq α] (t u : Table α) :
    t.within u = true ↔ ∀ key value, t.get? key = some value → u.get? key = some value := by
  simp only [within, List.all_eq_true, beq_iff_eq]
  constructor
  · intro h key value hget
    exact h (key, value) ((t.get?_eq_some_iff key value).mp hget)
  · intro h e he
    exact h e.1 e.2 ((t.get?_eq_some_iff e.1 e.2).mpr he)

theorem agrees_iff [BEq α] [LawfulBEq α] (t u : Table α) :
    t.agrees u = true ↔ ∀ key, t.get? key = u.get? key := by
  simp only [agrees, Bool.and_eq_true, within_iff]
  constructor
  · intro h key
    cases ht : t.get? key with
    | some value => exact (h.1 key value ht).symm
    | none =>
      cases hu : u.get? key with
      | none => rfl
      | some value => rw [h.2 key value hu] at ht; exact absurd ht (by simp)
  · intro h
    exact ⟨fun key value hk ↦ (h key) ▸ hk, fun key value hk ↦ (h key).symm ▸ hk⟩

end Table

end NodeFleet
