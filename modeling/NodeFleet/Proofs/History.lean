import Mathlib.Data.List.Induction
import NodeFleet.Proofs.Steps
/-!
Histories of a fleet. What every step keeps holds after any history in which the registry is
replaced by no direct write: the journal goes with the registry, every turn in it is that of a cycle
which an operation asked for, and all that the turns heard was told at some moment of the history.
-/

set_option autoImplicit false
set_option relaxedAutoImplicit false

namespace NodeFleet.Fleet

open NodeFleet.Discovery NodeFleet.Quota

variable {α : Type}

/-- Fleets that have not begun anything yet. -/
def fresh (site : Site) (cloud : Cloud) (files : Files) (quotas : Option (Quotas α)) : Fleet α :=
  .start site (.start cloud files quotas)

/-- Fleets to which some history leads. -/
def Reachable [Balance α] (f : Fleet α) : Prop :=
  ∃ (site : Site) (cloud : Cloud) (files : Files) (quotas : Option (Quotas α))
    (events : List Event), f = (fresh site cloud files quotas).after events

namespace Event

/-- An event by which names stay distinct. -/
def Orderly : Event → Prop
  | replace _ _ => False
  | _ => True

/-- An event that is no direct write to the registry. -/
def Indirect : Event → Prop
  | register _ => False
  | unregister _ => False
  | replace _ _ => False
  | _ => True

theorem Indirect.orderly {e : Event} (h : e.Indirect) : e.Orderly := by
  cases e with
  | replace => exact h.elim
  | _ => trivial

def operation? : Event → Option Operation
  | begin o => some o
  | _ => none

/-- The time that an event passes. -/
def millis : Event → Nat
  | elapse millis => millis
  | _ => 0

/-- The direct writes to the registry that an event makes. -/
def direct : Event → List Event
  | register c => [.register c]
  | unregister name => [.unregister name]
  | replace cs instances => [.replace cs instances]
  | _ => []

theorem Indirect.direct {e : Event} (h : e.Indirect) : e.direct = [] := by
  cases e with
  | register c => exact h.elim
  | unregister name => exact h.elim
  | replace cs instances => exact h.elim
  | _ => rfl

end Event

/-- The event by which a direct write was made. -/
def Write.event : Write → Event
  | register g => .register ⟨g.name, g.bounds⟩
  | unregister name => .unregister name
  | replace groups instances => .replace (groups.map fun g ↦ ⟨g.name, g.bounds⟩) instances

/-- The operations that a history begins; the ticket of each is its place. -/
def begun (events : List Event) : List Operation :=
  events.filterMap Event.operation?

theorem begun_of_lt {events : List Event} {t : Ticket} (h : t < (begun events).length)
    (later : List Event) : (begun (events ++ later))[t]? = (begun events)[t]? := by
  unfold begun at h ⊢
  rw [List.filterMap_append, List.getElem?_append_left h]

/-- The operation that begins after a history has the length of that for its place. -/
theorem begun_of_begin (events : List Event) (o : Operation) (later : List Event) :
    (begun (events ++ .begin o :: later))[(begun events).length]? = some o := by
  have hoperation : Event.operation? (.begin o) = some o := rfl
  unfold begun
  rw [List.filterMap_append, List.filterMap_cons_some hoperation]
  simp

/-- What a history has to tell that starts with a fleet. An activity is told what an inquiry would
tell at some moment since it began. -/
def lore [Balance α] (f : Fleet α) (events : List Event) : Lore where
  told t q r := ∃ before, before <+: events ∧ t ≤ (f.after before).nextTicket ∧
    (f.after before).world.Tells f.site q r
  asked t c := ∃ o, (begun events)[t]? = some o ∧ c ∈ o.cycles f.site

/-- What every step of a fleet keeps. -/
structure Sound (H : Lore) (f : Fleet α) : Prop where
  kept : f.world.Kept H f.site
  activities : ∀ e ∈ f.activities, e.2.Sound H f.site f.world.journal e.1
  known : ∀ e ∈ f.activities, e.1 < f.nextTicket
  unknown : ∀ t, f.nextTicket ≤ t → ¬ f.world.journal.HeldBy t

variable {H : Lore} {f : Fleet α}

theorem sound_fresh (H : Lore) (site : Site) (cloud : Cloud) (files : Files)
    (quotas : Option (Quotas α)) : (fresh site cloud files quotas).Sound H := by
  have hfree : Journal.Free .empty := rfl
  refine ⟨⟨?_, rfl, trivial, ?_, Or.inl hfree⟩, ?_, ?_, ?_⟩
  · exact fun x hx ↦ absurd hx List.not_mem_nil
  · exact fun t ht ↦ absurd ht List.not_mem_nil
  · exact fun e he ↦ absurd he List.not_mem_nil
  · exact fun e he ↦ absurd he List.not_mem_nil
  · exact fun t _ ↦ hfree.not_heldBy

theorem mem_of_activity? {t : Ticket} {a : Activity} (h : f.activity? t = some a) :
    (t, a) ∈ f.activities := by
  obtain ⟨e, hfind, rfl⟩ := Option.map_eq_some_iff.mp h
  have hticket : e.1 = t := by simpa using List.find?_some hfind
  obtain rfl := hticket
  exact List.mem_of_find?_eq_some hfind

theorem site_settle (f : Fleet α) (t : Ticket) (r : Step α) : (f.settle t r).site = f.site := by
  rcases r with ⟨w, a | o⟩
  · rfl
  · rfl

theorem nextTicket_settle (f : Fleet α) (t : Ticket) (r : Step α) :
    (f.settle t r).nextTicket = f.nextTicket := by
  rcases r with ⟨w, a | o⟩
  · rfl
  · rfl

/-! ### Steps -/

/-- A change of the world that leaves the journal's side of it alone. -/
theorem Sound.of_world (h : f.Sound H) {w : World α} (hbooks : w.books = f.world.books)
    (hgate : w.gate = f.world.gate) (hjournal : w.journal = f.world.journal) :
    ({ f with world := w } : Fleet α).Sound H := by
  constructor
  · constructor
    · show ∀ x ∈ w.journal.writes, x.Orderly
      rw [hjournal]
      exact h.kept.orderly
    · show w.books = w.journal.books f.site
      rw [hbooks, hjournal]
      exact h.kept.books
    · show w.journal.Faithful f.site
      rw [hjournal]
      exact h.kept.faithful
    · show ∀ t ∈ w.journal.turns, t.Heard H f.site
      rw [hjournal]
      exact h.kept.heard
    · show w.journal.Free ∨ ∃ t, w.journal.HeldBy t ∧ w.gate.head? = some t
      rw [hjournal, hgate]
      exact h.kept.gate
  · show ∀ e ∈ f.activities, e.2.Sound H f.site w.journal e.1
    rw [hjournal]
    exact h.activities
  · exact h.known
  · show ∀ t, f.nextTicket ≤ t → ¬ w.journal.HeldBy t
    rw [hjournal]
    exact h.unknown

/-- A direct write, together with its entry in the journal. -/
theorem Sound.write (h : f.Sound H) {x : Write} (hx : x.Orderly) {w : World α}
    (hbooks : w.books = f.world.books.write x) (hgate : w.gate = f.world.gate)
    (hjournal : w.journal = f.world.journal.write x) :
    ({ f with world := w } : Fleet α).Sound H := by
  constructor
  · constructor
    · show ∀ y ∈ w.journal.writes, y.Orderly
      rw [hjournal, Journal.writes_write]
      intro y hy
      rcases List.mem_append.mp hy with hy | hy
      · exact h.kept.orderly y hy
      · obtain rfl := List.mem_singleton.mp hy
        exact hx
    · show w.books = w.journal.books f.site
      rw [hbooks, hjournal, Journal.books_write, h.kept.books]
    · show w.journal.Faithful f.site
      rw [hjournal]
      exact h.kept.faithful
    · show ∀ t ∈ w.journal.turns, t.Heard H f.site
      rw [hjournal]
      exact h.kept.heard
    · show w.journal.Free ∨ ∃ t, w.journal.HeldBy t ∧ w.gate.head? = some t
      rw [hjournal, hgate]
      exact h.kept.gate
  · show ∀ e ∈ f.activities, e.2.Sound H f.site w.journal e.1
    rw [hjournal]
    exact fun e he ↦ (h.activities e he).undisturbed (Journal.undisturbed_write _ x e.1)
  · exact h.known
  · show ∀ t, f.nextTicket ≤ t → ¬ w.journal.HeldBy t
    rw [hjournal]
    exact h.unknown

theorem Sound.settle (h : f.Sound H) {t : Ticket} (ht : t < f.nextTicket) {r : Step α}
    (hr : Taken H f.site t f.world r) : (f.settle t r).Sound H := by
  have hunknown : ∀ t', f.nextTicket ≤ t' → ¬ r.1.journal.HeldBy t' := by
    intro t' ht' hheld
    have hne : t' ≠ t := Nat.ne_of_gt (Nat.lt_of_lt_of_le ht ht')
    exact h.unknown t' ht' ((hr.moved.others t' hne).1.mp hheld)
  have hleft := hr.left
  rcases r with ⟨w, a | o⟩
  · refine ⟨hr.kept, ?_, ?_, hunknown⟩
    · intro e he
      obtain ⟨old, hold, rfl⟩ := List.mem_map.mp he
      split_ifs with hsame
      · exact hleft
      · exact (h.activities old hold).undisturbed (hr.moved.others _ hsame)
    · intro e he
      obtain ⟨old, hold, rfl⟩ := List.mem_map.mp he
      split_ifs
      · exact ht
      · exact h.known old hold
  · refine ⟨hr.kept, ?_, ?_, hunknown⟩
    · intro e he
      obtain ⟨hold, hne⟩ := List.mem_filter.mp he
      exact (h.activities e hold).undisturbed (hr.moved.others _ (by simpa using hne))
    · exact fun e he ↦ h.known e (List.mem_of_mem_filter he)

theorem journal_changeAccount (w : World α) (change : Account → Account) :
    (w.changeAccount change).journal = w.journal ∧ (w.changeAccount change).books = w.books ∧
      (w.changeAccount change).gate = w.gate := by
  unfold World.changeAccount
  split <;> exact ⟨rfl, rfl, rfl⟩

variable [Balance α]

theorem Sound.begin (h : f.Sound H)
    (htells : ∀ q r, f.world.Tells f.site q r → H.told f.nextTicket q r) {o : Operation}
    (hasks : ∀ c ∈ o.cycles f.site, H.asked f.nextTicket c) :
    (f.begin o).Sound H := by
  have htaken := taken_startOperation h.kept htells (h.unknown _ (Nat.le_refl _)) hasks
  have hothers : ∀ e ∈ f.activities, e.1 ≠ f.nextTicket := fun e he ↦
    Nat.ne_of_lt (h.known e he)
  have hunknown : ∀ t', f.nextTicket + 1 ≤ t' →
      ¬ (f.world.startOperation f.site f.nextTicket o).1.journal.HeldBy t' := by
    intro t' ht' hheld
    have hne : t' ≠ f.nextTicket := Nat.ne_of_gt ht'
    exact h.unknown t' (Nat.le_of_succ_le ht') ((htaken.moved.others t' hne).1.mp hheld)
  have hleft := htaken.left
  unfold Fleet.begin
  rcases hstart : f.world.startOperation f.site f.nextTicket o with ⟨w, a | outcome⟩
  · rw [hstart] at htaken hunknown hleft
    refine ⟨htaken.kept, ?_, ?_, hunknown⟩
    · intro e he
      rcases List.mem_append.mp he with he | he
      · exact (h.activities e he).undisturbed (htaken.moved.others _ (hothers e he))
      · obtain rfl := List.mem_singleton.mp he
        exact hleft
    · intro e he
      rcases List.mem_append.mp he with he | he
      · exact Nat.lt_succ_of_lt (h.known e he)
      · obtain rfl := List.mem_singleton.mp he
        exact Nat.lt_succ_self _
  · rw [hstart] at htaken hunknown
    refine ⟨htaken.kept, ?_, ?_, hunknown⟩
    · exact fun e he ↦ (h.activities e he).undisturbed (htaken.moved.others _ (hothers e he))
    · exact fun e he ↦ Nat.lt_succ_of_lt (h.known e he)

theorem Sound.step (h : f.Sound H)
    (htells : ∀ t ≤ f.nextTicket, ∀ q r, f.world.Tells f.site q r → H.told t q r)
    {e : Event} (he : e.Orderly)
    (hasks : ∀ o, e.operation? = some o → ∀ c ∈ o.cycles f.site, H.asked f.nextTicket c) :
    (f.step e).Sound H := by
  cases e with
  | begin o => exact h.begin (htells _ (Nat.le_refl _)) (hasks o rfl)
  | poll t =>
    show (f.poll t).Sound H
    unfold Fleet.poll
    cases hactivity : f.activity? t with
    | none => exact h
    | some a =>
      have hmem := mem_of_activity? hactivity
      have hknown := h.known _ hmem
      have htold := htells _ (Nat.le_of_lt hknown)
      exact h.settle hknown (taken_pollActivity h.kept htold (h.activities _ hmem))
  | elapse millis => exact h.of_world rfl rfl rfl
  | stop t =>
    show (f.stop t).Sound H
    unfold Fleet.stop
    split
    · rename_i r hactivity
      have hmem := mem_of_activity? hactivity
      have hr := h.activities _ hmem
      have hstopped : Refreshed H f.site t f.world (f.world, r.stop) :=
        ⟨h.kept, .refl t f.world, hr.asked, hr.idle, hr.busy⟩
      exact h.settle (h.known _ hmem) hstopped.wrapRefresher
    · exact h
  | account change =>
    obtain ⟨hjournal, hbooks, hgate⟩ := journal_changeAccount f.world change
    exact h.of_world hbooks hgate hjournal
  | line line => exact h.of_world rfl rfl rfl
  | files files => exact h.of_world rfl rfl rfl
  | register c => exact h.write (x := .register _) trivial rfl rfl rfl
  | unregister name => exact h.write (x := .unregister name) trivial rfl rfl rfl
  | replace cs instances => exact he.elim

/-- The direct writes that an event makes, as they are entered. -/
def written (f : Fleet α) : Event → List Write
  | .register c => [.register (f.world.newGroup c defaultSizePeriod).2]
  | .unregister name => [.unregister name]
  | .replace cs instances => [.replace (f.world.newGroups cs).2 instances]
  | _ => []

omit [Balance α] in
theorem event_written (f : Fleet α) {e : Event} (he : e.Orderly) :
    (f.written e).map Write.event = e.direct := by
  cases e with
  | replace cs instances => exact he.elim
  | _ => rfl

/-- Just the direct writes are entered as such. -/
theorem Sound.writes_step (h : f.Sound H)
    (htells : ∀ t ≤ f.nextTicket, ∀ q r, f.world.Tells f.site q r → H.told t q r)
    {e : Event} (he : e.Orderly)
    (hasks : ∀ o, e.operation? = some o → ∀ c ∈ o.cycles f.site, H.asked f.nextTicket c) :
    (f.step e).world.journal.writes = f.world.journal.writes ++ f.written e := by
  have hsame : ∀ j : Journal, j.writes = f.world.journal.writes →
      j.writes = f.world.journal.writes ++ [] := by
    intro j hj
    rw [hj, List.append_nil]
  cases e with
  | begin o =>
    refine hsame (f.begin o).world.journal ?_
    rw [world_begin]
    have htold := htells _ (Nat.le_refl _)
    have htaken := taken_startOperation h.kept htold (h.unknown _ (Nat.le_refl _)) (hasks o rfl)
    exact htaken.moved.writes
  | poll t =>
    refine hsame (f.poll t).world.journal ?_
    unfold Fleet.poll
    cases hactivity : f.activity? t with
    | none => rfl
    | some a =>
      have hmem := mem_of_activity? hactivity
      have htold := htells _ (Nat.le_of_lt (h.known _ hmem))
      rw [world_settle]
      exact (taken_pollActivity h.kept htold (h.activities _ hmem)).moved.writes
  | stop t =>
    refine hsame (f.stop t).world.journal ?_
    unfold Fleet.stop
    split
    · rw [world_settle]
      rfl
    · rfl
  | account change =>
    exact hsame _ (congrArg Journal.writes (journal_changeAccount f.world change).1)
  | elapse millis => exact hsame _ rfl
  | line line => exact hsame _ rfl
  | files files => exact hsame _ rfl
  | register c => exact f.world.journal.writes_write _
  | unregister name => exact f.world.journal.writes_write _
  | replace cs instances => exact he.elim

/-- A step takes no turn back, and leaves the line to the cloud as it is unless it sets it. -/
theorem Sound.turns_step (h : f.Sound H)
    (htells : ∀ t ≤ f.nextTicket, ∀ q r, f.world.Tells f.site q r → H.told t q r)
    {e : Event} (he : e.Orderly)
    (hasks : ∀ o, e.operation? = some o → ∀ c ∈ o.cycles f.site, H.asked f.nextTicket c) :
    f.world.journal.turns <+: (f.step e).world.journal.turns ∧
      ((∀ line, e ≠ .line line) → (f.step e).world.line = f.world.line) := by
  have hsame : ∀ w : World α, w.journal.turns = f.world.journal.turns →
      f.world.journal.turns <+: w.journal.turns := fun w hw ↦ hw ▸ List.prefix_refl _
  have hmoved : ∀ {t : Ticket} {w : World α}, World.Moved t f.world w →
      f.world.journal.turns <+: w.journal.turns ∧
        ((∀ line, e ≠ .line line) → w.line = f.world.line) := by
    intro t w hm
    obtain ⟨entered, hturns, -⟩ := hm.turns
    exact ⟨⟨entered, hturns.symm⟩, fun _ ↦ hm.line⟩
  cases e with
  | begin o =>
    have htold := htells _ (Nat.le_refl _)
    have htaken := taken_startOperation h.kept htold (h.unknown _ (Nat.le_refl _)) (hasks o rfl)
    show f.world.journal.turns <+: (f.begin o).world.journal.turns ∧
      (_ → (f.begin o).world.line = f.world.line)
    rw [world_begin]
    exact hmoved htaken.moved
  | poll t =>
    show f.world.journal.turns <+: (f.poll t).world.journal.turns ∧
      (_ → (f.poll t).world.line = f.world.line)
    unfold Fleet.poll
    cases hactivity : f.activity? t with
    | none => exact hmoved (.refl t f.world)
    | some a =>
      have hmem := mem_of_activity? hactivity
      have htold := htells _ (Nat.le_of_lt (h.known _ hmem))
      dsimp only
      rw [world_settle]
      exact hmoved (taken_pollActivity h.kept htold (h.activities _ hmem)).moved
  | stop t =>
    show f.world.journal.turns <+: (f.stop t).world.journal.turns ∧
      (_ → (f.stop t).world.line = f.world.line)
    unfold Fleet.stop
    split
    · rw [world_settle]
      exact hmoved (.refl t f.world)
    · exact hmoved (.refl t f.world)
  | account change =>
    refine ⟨hsame _ (congrArg Journal.turns (journal_changeAccount f.world change).1), fun _ ↦ ?_⟩
    show (f.world.changeAccount change).line = f.world.line
    unfold World.changeAccount
    split <;> rfl
  | line line => exact ⟨hsame _ rfl, fun hline ↦ absurd rfl (hline line)⟩
  | replace cs instances => exact he.elim
  | _ => exact ⟨hsame _ rfl, fun _ ↦ rfl⟩

/-! ### Runs -/

theorem after_append (f : Fleet α) (before later : List Event) :
    f.after (before ++ later) = (f.after before).after later :=
  List.foldl_append

theorem after_concat (f : Fleet α) (before : List Event) (e : Event) :
    f.after (before ++ [e]) = (f.after before).step e :=
  f.after_append before [e]

theorem site_begin (f : Fleet α) (o : Operation) : (f.begin o).site = f.site := by
  unfold Fleet.begin
  split <;> rfl

theorem nextTicket_begin (f : Fleet α) (o : Operation) :
    (f.begin o).nextTicket = f.nextTicket + 1 := by
  unfold Fleet.begin
  split <;> rfl

/-- No event changes the site, and just the operations that begin take tickets. -/
theorem site_step (f : Fleet α) (e : Event) :
    (f.step e).site = f.site ∧
      (f.step e).nextTicket = f.nextTicket + e.operation?.toList.length := by
  cases e with
  | begin o => exact ⟨f.site_begin o, f.nextTicket_begin o⟩
  | poll t =>
    show (f.poll t).site = f.site ∧ (f.poll t).nextTicket = f.nextTicket
    unfold Fleet.poll
    split
    · exact ⟨rfl, rfl⟩
    · exact ⟨f.site_settle .., f.nextTicket_settle ..⟩
  | stop t =>
    show (f.stop t).site = f.site ∧ (f.stop t).nextTicket = f.nextTicket
    unfold Fleet.stop
    split
    · exact ⟨f.site_settle .., f.nextTicket_settle ..⟩
    · exact ⟨rfl, rfl⟩
  | _ => exact ⟨rfl, rfl⟩

theorem site_after (f : Fleet α) (events : List Event) :
    (f.after events).site = f.site ∧
      (f.after events).nextTicket = f.nextTicket + (begun events).length := by
  induction events generalizing f with
  | nil => exact ⟨rfl, rfl⟩
  | cons e rest ih =>
    obtain ⟨hsite, hnext⟩ := f.site_step e
    obtain ⟨hsite', hnext'⟩ := ih (f.step e)
    refine ⟨hsite'.trans hsite, hnext'.trans ?_⟩
    rw [hnext]
    unfold begun
    cases hoperation : e.operation? with
    | none => rw [List.filterMap_cons_none hoperation]; rfl
    | some o =>
      rw [List.filterMap_cons_some hoperation, List.length_cons]
      show f.nextTicket + 1 + _ = f.nextTicket + (_ + 1)
      rw [Nat.add_right_comm, Nat.add_assoc]

/-- The ticket of an operation is spent with its beginning. -/
theorem lt_nextTicket_after (f : Fleet α) (op : Operation) (later : List Event) :
    f.nextTicket < ((f.begin op).after later).nextTicket := by
  rw [((f.begin op).site_after later).2, nextTicket_begin]
  exact Nat.lt_of_lt_of_le (Nat.lt_succ_self _) (Nat.le_add_right _ _)

theorem tells_lore (f : Fleet α) {before events : List Event} (h : before <+: events) :
    ∀ t ≤ (f.after before).nextTicket, ∀ q r,
      (f.after before).world.Tells (f.after before).site q r → (f.lore events).told t q r := by
  intro t ht q r hr
  rw [(f.site_after before).1] at hr
  exact ⟨before, h, ht, hr⟩

variable (site : Site) (cloud : Cloud) (files : Files) (quotas : Option (Quotas α))

/-- As many tickets have been given out as operations have begun. -/
theorem nextTicket_after (events : List Event) :
    ((fresh site cloud files quotas).after events).nextTicket = (begun events).length :=
  ((fresh site cloud files quotas).site_after events).2.trans (Nat.zero_add _)

theorem asked_lore {before events : List Event} {e : Event} (h : before ++ [e] <+: events) :
    ∀ o, e.operation? = some o →
      ∀ c ∈ o.cycles ((fresh site cloud files quotas).after before).site,
        ((fresh site cloud files quotas).lore events).asked
          ((fresh site cloud files quotas).after before).nextTicket c := by
  intro o ho c hc
  rw [((fresh site cloud files quotas).site_after before).1] at hc
  refine ⟨o, ?_, hc⟩
  obtain ⟨later, rfl⟩ := h
  cases e with
  | begin op =>
    obtain rfl := Option.some.inj ho
    rw [nextTicket_after, List.append_assoc]
    exact begun_of_begin before op later
  | _ => cases ho

/-- What every step keeps holds at every moment of a history without replacements, and what its
turns have heard was told at some moment of the history. -/
theorem sound_after {events : List Event} (he : ∀ e ∈ events, e.Orderly) {before : List Event}
    (hbefore : before <+: events) :
    ((fresh site cloud files quotas).after before).Sound
      ((fresh site cloud files quotas).lore events) := by
  induction before using List.reverseRecOn with
  | nil => exact sound_fresh _ site cloud files quotas
  | append_singleton before e ih =>
    have hearlier : before <+: events := (List.prefix_append _ _).trans hbefore
    have hmem : e ∈ events := hbefore.subset (by simp)
    rw [after_concat]
    exact (ih hearlier).step (tells_lore _ hearlier) (he e hmem)
      (asked_lore site cloud files quotas hbefore)

theorem kept_after {events : List Event} (he : ∀ e ∈ events, e.Orderly) :
    ((fresh site cloud files quotas).after events).world.Kept
      ((fresh site cloud files quotas).lore events) site := by
  have hkept := (sound_after site cloud files quotas he (List.prefix_refl events)).kept
  rw [((fresh site cloud files quotas).site_after events).1] at hkept
  exact hkept

/-- The direct writes of a history stand in the journal in their order. -/
theorem writes_after {events : List Event} (he : ∀ e ∈ events, e.Orderly) :
    ((fresh site cloud files quotas).after events).world.journal.writes.map Write.event =
      events.flatMap Event.direct := by
  induction events using List.reverseRecOn with
  | nil => rfl
  | append_singleton before e ih =>
    have hbefore : before <+: before ++ [e] := List.prefix_append _ _
    have hsound := sound_after site cloud files quotas he hbefore
    have hstep := hsound.writes_step (tells_lore _ hbefore) (he e (by simp))
      (asked_lore site cloud files quotas (List.prefix_refl _))
    rw [after_concat, hstep, List.map_append, event_written _ (he e (by simp)),
      ih fun x hx ↦ he x (List.mem_append_left _ hx), List.flatMap_append, List.flatMap_singleton]

theorem unwritten_after {events : List Event} (he : ∀ e ∈ events, e.Indirect) :
    ((fresh site cloud files quotas).after events).world.journal.writes = [] := by
  have hwrites := writes_after site cloud files quotas fun e h ↦ (he e h).orderly
  rw [List.flatMap_eq_nil_iff.mpr fun e h ↦ (he e h).direct] at hwrites
  exact List.map_eq_nil_iff.mp hwrites

/-- The turns of a history come one after the other. -/
theorem turns_after {events : List Event} (he : ∀ e ∈ events, e.Orderly) {before : List Event}
    (hbefore : before <+: events) :
    ((fresh site cloud files quotas).after before).world.journal.turns <+:
      ((fresh site cloud files quotas).after events).world.journal.turns := by
  induction events using List.reverseRecOn with
  | nil =>
    obtain rfl := List.prefix_nil.mp hbefore
    exact List.prefix_refl _
  | append_singleton earlier e ih =>
    rcases List.prefix_concat_iff.mp hbefore with rfl | hearlier
    · exact List.prefix_refl _
    · have hmost : earlier <+: earlier ++ [e] := List.prefix_append _ _
      have hsound := sound_after site cloud files quotas he hmost
      have hstep := hsound.turns_step (tells_lore _ hmost) (he e (by simp))
        (asked_lore site cloud files quotas (List.prefix_refl _))
      refine (ih (fun x hx ↦ he x (List.mem_append_left _ hx)) hearlier).trans ?_
      rw [after_concat]
      exact hstep.1

/-! ### A small fleet -/

/-- A site that selects what is on. -/
def smallSite : Site :=
  ⟨"rg", .ofSeconds 30, .ofSeconds 60, [.selector ⟨.insert .empty "on" "yes"⟩]⟩

/-- Two scale sets one of which is on, and answers that take ten milliseconds. -/
def smallAccount : Account :=
  let tags : Table String := .insert (.insert (.insert .empty "on" "yes") "min" "0") "max" "4"
  let stocked := Account.empty.setScaleSets "rg" [⟨"Pool", tags, 1⟩, ⟨"db", .empty, 1⟩]
  { stocked.setMembers "rg" "db" [⟨"/vm/1", "1"⟩] with latency := 10 }

def smallFleet : Fleet Rat :=
  fresh smallSite (.account smallAccount) .empty none

end NodeFleet.Fleet
