import NodeFleet.Proofs.Listings
/-!
Cycles one at a time. Whoever holds the gate is the first in its line, and between the plan of the
holder and its end no other cycle plans or ends. So what the holder has planned still follows from
the books on which it planned, and a cycle that ends is entered in the journal as one that ran
alone, whatever other activities did in between.
-/

set_option autoImplicit false
set_option relaxedAutoImplicit false

namespace NodeFleet.Fleet

open NodeFleet.Discovery NodeFleet.Quota

/-- Whether a brief is for a cycle that was asked for, and has the listing that the cycle wants. -/
def Brief.Heard (H : Lore) (site : Site) (b : Brief) : Prop :=
  H.asked b.ticket b.cycle ∧
    if b.cycle.needsListing site then H.told b.ticket .scaleSets b.listed else b.listed = .ok []

def Turn.Heard (H : Lore) (site : Site) (t : Turn) : Prop :=
  t.brief.Heard H site ∧ ∀ e ∈ t.told, H.told t.brief.ticket (.members e.1) e.2

namespace Journal

/-- Neither of two journals that agree on whether the ticket holds the gate has more deeds than the
other while it does. -/
def Undisturbed (j j' : Journal) (t : Ticket) : Prop :=
  (j'.HeldBy t ↔ j.HeldBy t) ∧ (j.HeldBy t → j'.deeds = j.deeds)

variable {j j' j'' : Journal} {t t' : Ticket}

theorem Free.not_heldBy (h : j.Free) : ¬ j.HeldBy t := by
  intro ht
  unfold Free at h
  unfold HeldBy at ht
  rw [h] at ht
  exact List.cons_ne_nil t [] (List.self_eq_append_right.mp ht)

theorem HeldBy.eq (h : j.HeldBy t) (h' : j.HeldBy t') : t = t' := by
  have happend := List.append_cancel_left (h.symm.trans h')
  exact (List.cons.inj happend).1

theorem Undisturbed.refl (j : Journal) (t : Ticket) : Undisturbed j j t :=
  ⟨Iff.rfl, fun _ ↦ rfl⟩

theorem Undisturbed.trans (h : Undisturbed j j' t) (h' : Undisturbed j' j'' t) :
    Undisturbed j j'' t :=
  ⟨h'.1.trans h.1, fun ht ↦ (h'.2 (h.1.mpr ht)).trans (h.2 ht)⟩

/-- Nobody is disturbed by the holder of the gate. -/
theorem undisturbed_of_ne (h : j.Free ∨ j.HeldBy t) (h' : j'.Free ∨ j'.HeldBy t) (hne : t' ≠ t) :
    Undisturbed j j' t' := by
  have hnot : ∀ {k : Journal}, k.Free ∨ k.HeldBy t → ¬ k.HeldBy t' := by
    intro k hk ht'
    rcases hk with hfree | hheld
    · exact hfree.not_heldBy ht'
    · exact hne (ht'.eq hheld)
  exact ⟨iff_of_false (hnot h') (hnot h), fun ht' ↦ absurd ht' (hnot h)⟩

theorem undisturbed_write (j : Journal) (x : Write) (t : Ticket) :
    Undisturbed j (j.write x) t :=
  ⟨Iff.rfl, fun _ ↦ rfl⟩

theorem HeldBy.settle (h : j.HeldBy t) : j.settle.HeldBy t := by
  unfold HeldBy
  rw [turns_settle]
  exact h

theorem Free.giveGate (h : j.Free) (t : Ticket) : (j.giveGate t).HeldBy t := by
  unfold HeldBy
  rw [turns_giveGate]
  exact congrArg (· ++ [t]) h

theorem HeldBy.close {b : Brief} (h : j.HeldBy b.ticket)
    (told : List (String × Except Error (List Member))) (installed : Option Snapshot)
    (result : Except Error Unit) : (j.close b told installed result).Free := by
  unfold Free
  rw [turns_close, List.map_append]
  exact h

end Journal

/-! ### What is kept -/

namespace World

variable {α : Type}

def books (w : World α) : Books :=
  ⟨w.registry, w.pinned⟩

/-- How the world goes with its journal, whose turns have heard nothing but `H`. -/
structure Kept (H : Lore) (site : Site) (w : World α) : Prop where
  orderly : ∀ x ∈ w.journal.writes, x.Orderly
  books : w.books = w.journal.books site
  faithful : w.journal.Faithful site
  heard : ∀ t ∈ w.journal.turns, t.Heard H site
  gate : w.journal.Free ∨ ∃ t, w.journal.HeldBy t ∧ w.gate.head? = some t

variable {H : Lore} {site : Site} {w w' : World α}

theorem Inquired.books (h : Inquired w w') : w'.books = w.books := by
  unfold World.books
  rw [h.registry, h.pinned]

theorem Kept.inquired (h : w.Kept H site) (hi : Inquired w w') : w'.Kept H site := by
  constructor
  · rw [hi.journal]
    exact h.orderly
  · rw [hi.books, hi.journal]
    exact h.books
  · rw [hi.journal]
    exact h.faithful
  · rw [hi.journal]
    exact h.heard
  · rw [hi.journal, hi.gate]
    exact h.gate

theorem Kept.distinct_planned (h : w.Kept H site) :
    Distinct (w.journal.planned site).registry.groups :=
  distinct_booksAfter (fun x hx ↦ h.orderly x (List.mem_append_left _ hx)) distinct_empty

theorem Kept.distinct (h : w.Kept H site) : Distinct w.registry.groups := by
  have hbooks : w.registry = (w.journal.books site).registry := congrArg Books.registry h.books
  rw [hbooks]
  exact distinct_overwritten (fun x hx ↦ h.orderly x (List.mem_append_right _ hx))
    h.distinct_planned

theorem Kept.joinGate (h : w.Kept H site) (t : Ticket) : (w.joinGate t).Kept H site := by
  refine ⟨h.orderly, h.books, h.faithful, h.heard, ?_⟩
  rcases h.gate with hfree | ⟨holder, hheld, hhead⟩
  · exact Or.inl hfree
  · refine Or.inr ⟨holder, hheld, ?_⟩
    show (w.gate ++ [t]).head? = some holder
    rw [List.head?_append, hhead]
    rfl

/-- Whoever is first in the line gets a free gate unless it has the gate already. -/
theorem Kept.free_of_hasGate (h : w.Kept H site) {t : Ticket} (hgate : w.hasGate t = true)
    (hout : ¬ w.journal.HeldBy t) : w.journal.Free := by
  rcases h.gate with hfree | ⟨holder, hheld, hhead⟩
  · exact hfree
  · have hfirst : w.gate.head? = some t := eq_of_beq hgate
    obtain rfl := Option.some.inj (hhead.symm.trans hfirst)
    exact absurd hheld hout

theorem Kept.giveGate (h : w.Kept H site) {t : Ticket} (hfree : w.journal.Free)
    (hgate : w.hasGate t = true) :
    ({ w with journal := w.journal.giveGate t } : World α).Kept H site :=
  ⟨h.orderly, h.books, h.faithful, h.heard,
    Or.inr ⟨t, hfree.giveGate t, eq_of_beq hgate⟩⟩

theorem Kept.settle (h : w.Kept H site) :
    ({ w with journal := w.journal.settle } : World α).Kept H site := by
  constructor
  · show ∀ x ∈ w.journal.settle.writes, x.Orderly
    rw [Journal.writes_settle]
    exact h.orderly
  · show w.books = w.journal.settle.books site
    rw [Journal.books_settle]
    exact h.books
  · exact h.faithful.settle
  · show ∀ t ∈ w.journal.settle.turns, t.Heard H site
    rw [Journal.turns_settle]
    exact h.heard
  · rcases h.gate with hfree | ⟨holder, hheld, hhead⟩
    · refine Or.inl ?_
      unfold Journal.Free
      rw [Journal.turns_settle]
      exact hfree
    · exact Or.inr ⟨holder, hheld.settle, hhead⟩

/-- A cycle that ends as one that ran alone keeps the journal. -/
theorem Kept.leaveGate (h : w.Kept H site) {b : Brief} (hheld : w.journal.HeldBy b.ticket)
    {told : List (String × Except Error (List Member))} {installed : Option Snapshot}
    {result : Except Error Unit} (hb : b.Heard H site)
    (htold : ∀ e ∈ told, H.told b.ticket (.members e.1) e.2)
    (hf : Turn.Faithful site (w.journal.planned site) w.books
      ⟨b, told, w.journal.pending, installed, result⟩)
    (hj : w'.journal = w.journal)
    (hbooks : w'.books = Turn.effect site (w.journal.planned site) w.books
      ⟨b, told, w.journal.pending, installed, result⟩) :
    (w'.leaveGate b told installed result).Kept H site := by
  rw [h.books] at hf hbooks
  constructor
  · show ∀ x ∈ (w'.journal.close b told installed result).writes, x.Orderly
    rw [Journal.writes_close, hj]
    exact h.orderly
  · show w'.books = (w'.journal.close b told installed result).books site
    rw [Journal.books_close, hj]
    exact hbooks
  · show (w'.journal.close b told installed result).Faithful site
    rw [hj]
    exact h.faithful.close hf
  · show ∀ t ∈ (w'.journal.close b told installed result).turns, t.Heard H site
    rw [Journal.turns_close, hj]
    intro t ht
    rcases List.mem_append.mp ht with ht | ht
    · exact h.heard t ht
    · obtain rfl := List.mem_singleton.mp ht
      exact ⟨hb, htold⟩
  · refine Or.inl ?_
    show (w'.journal.close b told installed result).Free
    rw [hj]
    exact hheld.close told installed result

end World

end NodeFleet.Fleet
