import NodeFleet.Proofs.Inquiries
/-!
The sizes of groups, written down each in the cell of its group. Nothing but the requests for the
size of a group touches its cell. Seen from a group, these requests start calls, end them, and
recall what an earlier call has answered; whoever is first in the line of the cell does so, and
nobody else.
-/

set_option autoImplicit false
set_option relaxedAutoImplicit false

namespace NodeFleet.Fleet

open NodeFleet.Quota

variable {α : Type}

namespace World

/-! ### Cells -/

variable {w w' : World α} {g g' : NodeGroup}

theorem cell_newGroup (w : World α) (g : NodeGroup) (c : Discovery.Candidate) (period : Duration) :
    (w.newGroup c period).1.cell g = w.cell g := by
  show ((w.cells.push .empty)[g.serial]?).getD .empty = (w.cells[g.serial]?).getD .empty
  rw [Array.getElem?_push]
  split_ifs with hlast
  · rw [hlast, Array.getElem?_eq_none (Nat.le_refl _)]
    rfl
  · rfl

theorem cell_changeCell_of_ne (w : World α) (hne : g'.serial ≠ g.serial)
    (f : SizeCell → SizeCell) : (w.changeCell g' f).cell g = w.cell g := by
  show ((w.cells.modify g'.serial f)[g.serial]?).getD .empty = (w.cells[g.serial]?).getD .empty
  rw [Array.getElem?_modify, if_neg hne]

theorem cell_changeCell (w : World α) (g : NodeGroup) (f : SizeCell → SizeCell) :
    (w.changeCell g f).cell g = if g.serial < w.cells.size then f (w.cell g) else w.cell g := by
  show ((w.cells.modify g.serial f)[g.serial]?).getD .empty =
    if g.serial < w.cells.size then f ((w.cells[g.serial]?).getD .empty)
      else (w.cells[g.serial]?).getD .empty
  rw [Array.getElem?_modify, if_pos rfl]
  split_ifs with hin
  · rw [Array.getElem?_eq_getElem hin]
    rfl
  · rw [Array.getElem?_eq_none (Nat.le_of_not_lt hin)]
    rfl

/-- Nothing is known of handles that have not been made. -/
theorem cell_of_le (h : w.cells.size ≤ g.serial) : w.cell g = .empty := by
  unfold cell
  rw [Array.getElem?_eq_none h]
  rfl

/-- Somebody in its line has a cell. -/
theorem lt_of_line {t : Ticket} (h : (w.cell g).line.head? = some t) :
    g.serial < w.cells.size := by
  by_contra hout
  unfold cell at h
  rw [Array.getElem?_eq_none (Nat.le_of_not_lt hout)] at h
  cases h

/-- Worlds of one moment in which the cell of a group is the same. -/
structure Steady (g : NodeGroup) (w w' : World α) : Prop where
  now : w'.now = w.now
  cell : w'.cell g = w.cell g

theorem borne_steady [Balance α] (g : NodeGroup) : Borne (Steady (α := α) g) where
  refl w := ⟨rfl, rfl⟩
  trans h h' := ⟨h'.now.trans h.now, h'.cell.trans h.cell⟩
  attempt w resourceGroup q := by
    obtain ⟨cloud, quotas, heq⟩ := w.attempt_eq resourceGroup q
    rw [heq]
    exact ⟨rfl, rfl⟩
  newGroup w c period := ⟨rfl, w.cell_newGroup g c period⟩
  books w _ _ _ _ _ := ⟨rfl, rfl⟩

theorem steady_changeCell (w : World α) (hne : g'.serial ≠ g.serial) (f : SizeCell → SizeCell) :
    Steady g w (w.changeCell g' f) :=
  ⟨rfl, w.cell_changeCell_of_ne hne f⟩

/-- No step takes a cell away. -/
theorem borne_size [Balance α] : Borne fun w w' : World α ↦ w.cells.size ≤ w'.cells.size where
  refl w := Nat.le_refl _
  trans h h' := Nat.le_trans h h'
  attempt w resourceGroup q := by
    obtain ⟨cloud, quotas, heq⟩ := w.attempt_eq resourceGroup q
    have hsize : (w.attempt resourceGroup q).1.cells.size = w.cells.size := by
      rw [heq]
    exact Nat.le_of_eq hsize.symm
  newGroup w c period := by
    show w.cells.size ≤ (w.cells.push .empty).size
    rw [Array.size_push]
    exact Nat.le_succ _
  books w _ _ _ _ _ := Nat.le_refl _

theorem size_changeCell (w : World α) (g : NodeGroup) (f : SizeCell → SizeCell) :
    (w.changeCell g f).cells.size = w.cells.size :=
  Array.size_modify

/-! ### Requests for a size -/

theorem knownSize?_joinLine (w : World α) (g : NodeGroup) (t : Ticket) :
    (w.joinLine g t).knownSize? g = w.knownSize? g := by
  have hcell : ((w.joinLine g t).cell g).size = (w.cell g).size ∧
      ((w.joinLine g t).cell g).askedAt = (w.cell g).askedAt := by
    unfold joinLine
    rw [cell_changeCell]
    split_ifs <;> exact ⟨rfl, rfl⟩
  unfold knownSize?
  rw [hcell.1, hcell.2]
  rfl

variable {site : Site} {t : Ticket}

theorem finished_of_wrapSize {r : World α × Progress SizePhase (Except Error Nat)}
    {outcome : Outcome} (h : (wrapSize g r).2 = .finished outcome) :
    ∃ result, r.2 = .finished result ∧ outcome = ofResult .size result := by
  rcases r with ⟨w', phase | result⟩
  · cases h
  · exact ⟨result, rfl, (Progress.finished.inj h).symm⟩

section

variable [Balance α] {result : Except Error Nat}

theorem result_of_pollAsking {i : Inquiry}
    (h : (w.pollAsking site g t i).2 = .finished result) :
    ∃ r, w.Tells site (.scaleSet g.name) r ∧ result = r.map ScaleSet.capacity := by
  unfold pollAsking at h
  rcases hpoll : w.pollInquiry site (.scaleSet g.name) i with ⟨w', i' | answer⟩
  · rw [hpoll] at h
    cases h
  · rw [hpoll] at h
    refine ⟨answer, tells_pollInquiry (congrArg Prod.snd hpoll), ?_⟩
    cases answer with
    | error e => exact (Progress.finished.inj h).symm
    | ok s => exact (Progress.finished.inj h).symm

/-- A request for a size gets the one that is known, or what the client has to tell. -/
theorem result_of_pollSize {phase : SizePhase}
    (h : (w.pollSize site g t phase).2 = .finished result) :
    (∃ n, w.knownSize? g = some n ∧ result = .ok n) ∨
      ∃ r, w.Tells site (.scaleSet g.name) r ∧ result = r.map ScaleSet.capacity := by
  cases phase with
  | asking i => exact Or.inr (result_of_pollAsking h)
  | queued =>
    dsimp only [pollSize] at h
    split_ifs at h
    cases hknown : w.knownSize? g with
    | some n =>
      rw [hknown] at h
      exact Or.inl ⟨n, rfl, (Progress.finished.inj h).symm⟩
    | none =>
      rw [hknown] at h
      exact Or.inr (result_of_pollAsking h)

end

end World

/-! ### The protocol of a size -/

/-- What requests for the size of a group do, each with its ticket and its moment. -/
inductive SizeDeed
  /-- A call for the size starts. -/
  | asked (t : Ticket) (now : Nat)
  | ended (t : Ticket) (now : Nat) (result : Except Error Nat)
  /-- The size is one that was answered before. -/
  | recalled (t : Ticket) (now : Nat) (size : Nat)

/-- What there is to know about a size. -/
structure SizeState where
  /-- The request whose call is under way. -/
  busy : Option Ticket
  /-- The last answer and its moment. -/
  known : Option (Nat × Nat)

namespace SizeState

def start : SizeState := ⟨none, none⟩

def after (s : SizeState) : SizeDeed → SizeState
  | .asked t _ => { s with busy := some t }
  | .ended _ now (.ok n) => ⟨none, some (n, now)⟩
  | .ended _ _ (.error _) => { s with busy := none }
  | .recalled _ _ _ => s

/-- Whether a deed keeps to the protocol: one call at a time, none before the last answer is as old
as the period, and no size recalled afterwards. -/
def Permits (period : Duration) (s : SizeState) : SizeDeed → Prop
  | .asked _ now => s.busy = none ∧
      ∀ n e, s.known = some (n, e) → e ≤ now ∧ period.outlasts (now - e) = false
  | .ended t now _ => s.busy = some t ∧ ∀ n e, s.known = some (n, e) → e ≤ now
  | .recalled _ now n => s.busy = none ∧
      ∃ e, s.known = some (n, e) ∧ e ≤ now ∧ period.outlasts (now - e) = true

def afterAll (s : SizeState) (deeds : List SizeDeed) : SizeState :=
  deeds.foldl after s

theorem afterAll_append (s : SizeState) (first second : List SizeDeed) :
    s.afterAll (first ++ second) = (s.afterAll first).afterAll second :=
  List.foldl_append

def Lawful (period : Duration) : SizeState → List SizeDeed → Prop
  | _, [] => True
  | s, d :: rest => s.Permits period d ∧ (s.after d).Lawful period rest

theorem lawful_append {period : Duration} {s : SizeState} {first second : List SizeDeed} :
    s.Lawful period (first ++ second) ↔
      s.Lawful period first ∧ (s.afterAll first).Lawful period second := by
  induction first generalizing s with
  | nil => exact (and_iff_right trivial).symm
  | cons d rest ih => exact (and_congr_right fun _ ↦ ih).trans and_assoc.symm

variable {period : Duration} {s : SizeState} {deeds before later : List SizeDeed}

/-- A deed of a lawful list is permitted by what came before it. -/
theorem Lawful.permits {d : SizeDeed} (h : s.Lawful period (before ++ d :: later)) :
    (s.afterAll before).Permits period d :=
  (lawful_append.mp h).2.1

/-- An answer is only superseded by a later one. -/
theorem Lawful.known (h : s.Lawful period deeds) {n e : Nat} (hs : s.known = some (n, e)) :
    ∃ n' e', (s.afterAll deeds).known = some (n', e') ∧ e ≤ e' := by
  induction deeds generalizing s n e with
  | nil => exact ⟨n, e, hs, Nat.le_refl e⟩
  | cons d rest ih =>
    obtain ⟨hpermits, hrest⟩ := h
    cases d with
    | asked t now => exact ih hrest hs
    | recalled t now size => exact ih hrest hs
    | ended t now result =>
      cases result with
      | error fault => exact ih hrest hs
      | ok size =>
        obtain ⟨n', e', hknown, hle⟩ := ih (n := size) (e := now) hrest rfl
        exact ⟨n', e', hknown, Nat.le_trans (hpermits.2 n e hs) hle⟩

/-- After a call has started the next deed is its end. -/
theorem Lawful.next {t now : Nat} {d : SizeDeed}
    (h : s.Lawful period (before ++ .asked t now :: d :: later)) :
    ∃ e result, d = .ended t e result := by
  have hnext : ((s.afterAll before).after (.asked t now)).Permits period d :=
    (lawful_append.mp h).2.2.1
  cases d with
  | asked t' now' => cases hnext.1
  | recalled t' now' size => cases hnext.1
  | ended t' e result =>
    obtain rfl := Option.some.inj hnext.1
    exact ⟨e, result, rfl⟩

/-- After an answer no call starts before the period has passed. -/
theorem Lawful.spaced {between : List SizeDeed} {t t' e n now : Nat}
    (h : s.Lawful period (before ++ .ended t e (.ok n) :: between ++ .asked t' now :: later)) :
    e ≤ now ∧ period.outlasts (now - e) = false := by
  obtain ⟨-, hstale⟩ := h.permits
  have hearlier := (lawful_append.mp h).1
  have hbetween : ((s.afterAll before).after (.ended t e (.ok n))).Lawful period between :=
    (lawful_append.mp hearlier).2.2
  have hstate : s.afterAll (before ++ .ended t e (.ok n) :: between) =
      ((s.afterAll before).after (.ended t e (.ok n))).afterAll between := s.afterAll_append ..
  obtain ⟨n', e', hknown, hle⟩ := hbetween.known (n := n) (e := e) rfl
  rw [← hstate] at hknown
  obtain ⟨hpast, hold⟩ := hstale n' e' hknown
  exact ⟨Nat.le_trans hle hpast, Duration.outlasts_of_le hold (Nat.sub_le_sub_left hle now)⟩

end SizeState

/-- The size and the moment of a call that has been answered. -/
def SizeDeed.answer? : SizeDeed → Option (Nat × Nat)
  | .ended _ now (.ok n) => some (n, now)
  | _ => none

/-- The last size that a call was answered, and when. -/
def lastAnswer? (deeds : List SizeDeed) : Option (Nat × Nat) :=
  (deeds.filterMap SizeDeed.answer?).getLast?

theorem SizeState.known_afterAll (s : SizeState) (deeds : List SizeDeed) :
    (s.afterAll deeds).known = (lastAnswer? deeds).or s.known := by
  induction deeds generalizing s with
  | nil => rfl
  | cons d rest ih =>
    refine (ih (s.after d)).trans ?_
    unfold lastAnswer?
    cases d with
    | ended t now result =>
      cases result with
      | error fault => rfl
      | ok n =>
        have hanswer : SizeDeed.answer? (.ended t now (.ok n)) = some (n, now) := rfl
        rw [List.filterMap_cons_some hanswer, List.getLast?_cons]
        cases (rest.filterMap SizeDeed.answer?).getLast? <;> rfl
    | _ => rfl

theorem mem_of_lastAnswer? {deeds : List SizeDeed} {n e : Nat}
    (h : lastAnswer? deeds = some (n, e)) : ∃ t, .ended t e (.ok n) ∈ deeds := by
  obtain ⟨d, hd, hanswer⟩ := List.mem_filterMap.mp (List.mem_of_getLast? h)
  cases d with
  | ended t now result =>
    cases result with
    | error fault => cases hanswer
    | ok size =>
      cases hanswer
      exact ⟨t, hd⟩
  | _ => cases hanswer

/-- What a step of the call of a request does. -/
def askingDeeds (t : Ticket) (now : Nat) : Progress SizePhase (Except Error Nat) → List SizeDeed
  | .waiting _ => []
  | .finished result => [.ended t now result]

namespace World

/-- What a step of a request for a size does, by the phase before it and by what it comes to: unless
it has to wait for its turn, a request in the line recalls the known size or starts its call. -/
def sizeDeeds (w : World α) (g : NodeGroup) (t : Ticket) :
    SizePhase → Progress SizePhase (Except Error Nat) → List SizeDeed
  | .asking _, r => askingDeeds t w.now r
  | .queued, .waiting .queued => []
  | .queued, r =>
    match w.knownSize? g with
    | some n => [.recalled t w.now n]
    | none => .asked t w.now :: askingDeeds t w.now r

/-- How the cell of a group goes with the state of its size. -/
structure Written (g : NodeGroup) (s : SizeState) (w : World α) : Prop where
  size : (w.cell g).size = s.known.map Prod.fst
  askedAt : (w.cell g).askedAt = s.known.map Prod.snd
  past : ∀ n e, s.known = some (n, e) → e ≤ w.now
  turn : ∀ t, s.busy = some t → (w.cell g).line.head? = some t

variable {w w' : World α} {g : NodeGroup} {s : SizeState} {t : Ticket}

theorem Written.of_cell (h : Written g s w) (hcell : w'.cell g = w.cell g) (hnow : w.now ≤ w'.now) :
    Written g s w' := by
  refine ⟨?_, ?_, fun n e hs ↦ Nat.le_trans (h.past n e hs) hnow, ?_⟩
  · rw [hcell]
    exact h.size
  · rw [hcell]
    exact h.askedAt
  · rw [hcell]
    exact h.turn

theorem Written.steady (h : Written g s w) (hs : Steady g w w') : Written g s w' :=
  h.of_cell hs.cell (Nat.le_of_eq hs.now.symm)

theorem Written.joinLine (h : Written g s w) (t : Ticket) : Written g s (w.joinLine g t) := by
  have hcell : (w.joinLine g t).cell g =
      if g.serial < w.cells.size then { w.cell g with line := (w.cell g).line ++ [t] }
        else w.cell g := w.cell_changeCell g _
  split_ifs at hcell
  · refine ⟨by rw [hcell]; exact h.size, by rw [hcell]; exact h.askedAt, h.past, ?_⟩
    intro t' ht'
    rw [hcell]
    dsimp only
    rw [List.head?_append, h.turn t' ht']
    rfl
  · exact ⟨by rw [hcell]; exact h.size, by rw [hcell]; exact h.askedAt, h.past,
      by rw [hcell]; exact h.turn⟩

theorem Written.recordSize (h : Written g s w) (hin : g.serial < w.cells.size) (n : Nat) :
    Written g { s with known := some (n, w.now) } (w.recordSize g n) := by
  have hcell : (w.recordSize g n).cell g =
      { w.cell g with size := some n, askedAt := some w.now } :=
    (w.cell_changeCell g _).trans (if_pos hin)
  refine ⟨congrArg SizeCell.size hcell, congrArg SizeCell.askedAt hcell, ?_, ?_⟩
  · rintro n e ⟨⟩
    exact Nat.le_refl _
  · rw [hcell]
    exact h.turn

/-- Whoever leaves the line has no call under way. -/
theorem Written.leaveLine (h : Written g s w) (t : Ticket) :
    Written g { s with busy := none } (w.leaveLine g t) := by
  have hcell : (w.leaveLine g t).cell g =
      if g.serial < w.cells.size then { w.cell g with line := (w.cell g).line.filter (· ≠ t) }
        else w.cell g := w.cell_changeCell g _
  refine ⟨?_, ?_, h.past, fun t' ht' ↦ by cases ht'⟩
  · rw [hcell]
    split_ifs <;> exact h.size
  · rw [hcell]
    split_ifs <;> exact h.askedAt

/-- A known size is the last answer, if that is not as old as the period. -/
theorem Written.knownSize?_eq_some (h : Written g s w) {n : Nat} :
    w.knownSize? g = some n ↔
      ∃ e, s.known = some (n, e) ∧ g.sizePeriod.outlasts (w.now - e) = true := by
  unfold World.knownSize?
  rw [h.size, h.askedAt]
  cases s.known with
  | none => exact iff_of_false (fun h ↦ by cases h) fun ⟨e, h, _⟩ ↦ by cases h
  | some k =>
    obtain ⟨size, e⟩ := k
    dsimp only [Option.map_some]
    by_cases hfresh : g.sizePeriod.outlasts (w.now - e) = true
    · rw [if_pos hfresh]
      constructor
      · rintro ⟨⟩
        exact ⟨e, rfl, hfresh⟩
      · rintro ⟨e', hknown, -⟩
        cases hknown
        rfl
    · rw [if_neg hfresh]
      refine iff_of_false (fun h ↦ by cases h) ?_
      rintro ⟨e', hknown, hfresh'⟩
      cases hknown
      exact hfresh hfresh'

/-- What a step of a request for the size of a group comes to. -/
structure Served (g : NodeGroup) (t : Ticket) (s : SizeState) (w : World α)
    (r : World α × Progress SizePhase (Except Error Nat)) (deeds : List SizeDeed) : Prop where
  lawful : s.Lawful g.sizePeriod deeds
  written : Written g (s.afterAll deeds) r.1
  now : r.1.now = w.now
  /-- The calls of other requests are under way as before. -/
  others : ∀ t', t' ≠ t → ((s.afterAll deeds).busy = some t' ↔ s.busy = some t')
  own : (s.afterAll deeds).busy = some t ↔ ∃ i, r.2 = .waiting (.asking i)

variable [Balance α] {site : Site}

theorem served_pollAsking (h : Written g s w) (hbusy : s.busy = some t) (i : Inquiry) :
    Served g t s w (w.pollAsking site g t i) (askingDeeds t w.now (w.pollAsking site g t i).2) := by
  have hasked := (borne_steady g).pollInquiry w site (.scaleSet g.name) i
  have hpermitted : ∀ result, s.Permits g.sizePeriod (.ended t w.now result) := fun _ ↦
    ⟨hbusy, h.past⟩
  have hothers : ∀ t', t' ≠ t → (none = some t' ↔ s.busy = some t') := by
    intro t' ht'
    rw [hbusy]
    exact iff_of_false (fun h ↦ by cases h) fun h ↦ ht' (Option.some.inj h).symm
  unfold World.pollAsking
  rcases hpoll : w.pollInquiry site (.scaleSet g.name) i with ⟨w', i' | e | size⟩
  · rw [hpoll] at hasked
    exact ⟨trivial, h.steady hasked, hasked.now, fun _ _ ↦ Iff.rfl, iff_of_true hbusy ⟨i', rfl⟩⟩
  · rw [hpoll] at hasked
    exact ⟨⟨hpermitted _, trivial⟩, (h.steady hasked).leaveLine t, hasked.now, hothers,
      iff_of_false (fun h ↦ by cases h) fun ⟨i', h⟩ ↦ by cases h⟩
  · rw [hpoll] at hasked
    have hw' := h.steady hasked
    have hin := lt_of_line (hw'.turn t hbusy)
    have hrecorded := (hw'.recordSize hin size.capacity).leaveLine t
    rw [hasked.now] at hrecorded
    exact ⟨⟨hpermitted _, trivial⟩, hrecorded, hasked.now, hothers,
      iff_of_false (fun h ↦ by cases h) fun ⟨i', h⟩ ↦ by cases h⟩

omit [Balance α] in
/-- A step that starts the call of its request first. -/
theorem Served.asked {r : World α × Progress SizePhase (Except Error Nat)} {deeds : List SizeDeed}
    (h : Served g t { s with busy := some t } w r deeds) (hidle : s.busy = none)
    (hstale : ∀ n e, s.known = some (n, e) →
      e ≤ w.now ∧ g.sizePeriod.outlasts (w.now - e) = false) :
    Served g t s w r (.asked t w.now :: deeds) := by
  refine ⟨⟨⟨hidle, hstale⟩, h.lawful⟩, h.written, h.now, ?_, h.own⟩
  intro t' ht'
  refine (h.others t' ht').trans (iff_of_false ?_ ?_)
  · exact fun h ↦ ht' (Option.some.inj h).symm
  · rw [hidle]
    exact fun h ↦ by cases h

/-- Whoever has its turn recalls the known size or starts the only call. -/
theorem served_pollSize (h : Written g s w) {phase : SizePhase}
    (hphase : s.busy = some t ↔ ∃ i, phase = .asking i) :
    Served g t s w (w.pollSize site g t phase)
      (w.sizeDeeds g t phase (w.pollSize site g t phase).2) := by
  cases phase with
  | asking i => exact served_pollAsking h (hphase.mpr ⟨i, rfl⟩) i
  | queued =>
    have hout : s.busy ≠ some t := fun hbusy ↦ by
      obtain ⟨i, hi⟩ := hphase.mp hbusy
      cases hi
    dsimp only [World.pollSize]
    by_cases hturn : w.hasTurn g t = true
    · rw [if_pos hturn]
      have hhead : (w.cell g).line.head? = some t := eq_of_beq hturn
      have hidle : s.busy = none := by
        cases hbusy : s.busy with
        | none => rfl
        | some t' =>
          have ht' := h.turn t' hbusy
          rw [hhead] at ht'
          exact absurd (hbusy.trans ht'.symm) hout
      cases hknown : w.knownSize? g with
      | some n =>
        obtain ⟨e, hlast, hfresh⟩ := h.knownSize?_eq_some.mp hknown
        have hleft := h.leaveLine t
        rw [← hidle] at hleft
        unfold sizeDeeds
        rw [hknown]
        exact ⟨⟨⟨hidle, e, hlast, h.past n e hlast, hfresh⟩, trivial⟩, hleft, rfl,
          fun _ _ ↦ Iff.rfl, iff_of_false hout fun ⟨i, h⟩ ↦ by cases h⟩
      | none =>
        have hstale : ∀ n e, s.known = some (n, e) →
            e ≤ w.now ∧ g.sizePeriod.outlasts (w.now - e) = false := by
          intro n e hlast
          refine ⟨h.past n e hlast, Bool.eq_false_iff.mpr fun hfresh ↦ ?_⟩
          have hsome := h.knownSize?_eq_some.mpr ⟨e, hlast, hfresh⟩
          rw [hknown] at hsome
          cases hsome
        have hbusy : Written g { s with busy := some t } w :=
          ⟨h.size, h.askedAt, h.past, fun t' ht' ↦ by cases ht'; exact hhead⟩
        have hserved : Served g t _ w (w.pollAsking site g t (.start site w.now)) _ :=
          served_pollAsking hbusy rfl _
        dsimp only
        rcases hpoll : w.pollAsking site g t (.start site w.now) with ⟨w', (_ | i) | result⟩
        · rw [hpoll] at hserved
          obtain ⟨i, hi⟩ := hserved.own.mp rfl
          cases hi
        all_goals
          rw [hpoll] at hserved
          unfold sizeDeeds
          rw [hknown]
          exact hserved.asked hidle hstale
    · rw [if_neg hturn]
      exact ⟨trivial, h, rfl, fun _ _ ↦ Iff.rfl, iff_of_false hout fun ⟨i, h⟩ ↦ by cases h⟩

omit [Balance α] in
/-- A size that is told is the capacity in the client's answer. -/
theorem Tells.capacity {r : Except Error ScaleSet} {n : Nat}
    (h : w.Tells site (.scaleSet g.name) r) (hr : r.map ScaleSet.capacity = .ok n) :
    ∃ x, w.answer site.resourceGroup (.scaleSet g.name) = .ok x ∧ x.capacity = n := by
  rcases h with rfl | rfl
  · cases hanswer : w.answer site.resourceGroup (.scaleSet g.name) with
    | error e =>
      rw [hanswer] at hr
      cases hr
    | ok x =>
      rw [hanswer] at hr
      exact ⟨x, rfl, Except.ok.inj hr⟩
  · cases hr

/-- An answer that a call ends with is that of the client. -/
theorem answer_of_mem_sizeDeeds {phase : SizePhase} {t' now n : Nat}
    (h : .ended t' now (.ok n) ∈ w.sizeDeeds g t phase (w.pollSize site g t phase).2) :
    now = w.now ∧
      ∃ x, w.answer site.resourceGroup (.scaleSet g.name) = .ok x ∧ x.capacity = n := by
  have hended : now = w.now ∧ (w.pollSize site g t phase).2 = .finished (.ok n) ∧
      (phase = .queued → w.knownSize? g = none) := by
    have hasking : ∀ r, .ended t' now (.ok n) ∈ askingDeeds t w.now r →
        now = w.now ∧ r = .finished (.ok n) := by
      intro r hr
      cases r with
      | waiting state => cases hr
      | finished result =>
        cases List.mem_singleton.mp hr
        exact ⟨rfl, rfl⟩
    cases phase with
    | asking i =>
      obtain ⟨hnow, hr⟩ := hasking _ h
      exact ⟨hnow, hr, fun hp ↦ by cases hp⟩
    | queued =>
      rcases hr : (w.pollSize site g t .queued).2 with (_ | i) | result
      · rw [hr] at h
        cases h
      all_goals
        rw [hr] at h
        unfold sizeDeeds at h
        cases hknown : w.knownSize? g with
        | some size =>
          rw [hknown] at h
          cases List.mem_singleton.mp h
        | none =>
          rw [hknown] at h
          rcases List.mem_cons.mp h with h | h
          · cases h
          · exact ⟨(hasking _ h).1, (hasking _ h).2, fun _ ↦ rfl⟩
  obtain ⟨hnow, hfinished, hunknown⟩ := hended
  refine ⟨hnow, ?_⟩
  cases phase with
  | asking i =>
    obtain ⟨r, htells, hr⟩ := result_of_pollAsking hfinished
    exact htells.capacity hr.symm
  | queued =>
    rcases result_of_pollSize hfinished with ⟨size, hknown, -⟩ | ⟨r, htells, hr⟩
    · rw [hunknown rfl] at hknown
      cases hknown
    · exact htells.capacity hr.symm

/-- A request whose call is not under way leaves the client and its quotas alone, unless it
starts its call. -/
theorem quiet_pollSize
    (h : ∀ now, .asked t now ∉ w.sizeDeeds g t .queued (w.pollSize site g t .queued).2) :
    (w.pollSize site g t .queued).1.cloud = w.cloud ∧
      (w.pollSize site g t .queued).1.quotas = w.quotas := by
  dsimp only [World.pollSize] at h ⊢
  by_cases hturn : w.hasTurn g t = true
  · rw [if_pos hturn] at h ⊢
    cases hknown : w.knownSize? g with
    | some n => exact ⟨rfl, rfl⟩
    | none =>
      rw [hknown] at h
      dsimp only at h
      have hasks : .asked t w.now ∈
          w.sizeDeeds g t .queued (w.pollAsking site g t (.start site w.now)).2 := by
        unfold World.pollAsking
        unfold sizeDeeds
        rcases w.pollInquiry site (.scaleSet g.name) (.start site w.now) with ⟨w', i | answer⟩
        all_goals
          rw [hknown]
          exact List.mem_cons_self
      exact absurd hasks (h w.now)
  · rw [if_neg hturn]
    exact ⟨rfl, rfl⟩

/-- A request that ends with a size recalls it, or its own call was answered it. -/
theorem exists_deed_of_finished {phase : SizePhase} {n : Nat}
    (h : (w.pollSize site g t phase).2 = .finished (.ok n)) :
    ∃ d ∈ w.sizeDeeds g t phase (w.pollSize site g t phase).2,
      d = .ended t w.now (.ok n) ∨ d = .recalled t w.now n := by
  rw [h]
  cases phase with
  | asking i => exact ⟨_, List.mem_singleton_self _, Or.inl rfl⟩
  | queued =>
    unfold sizeDeeds
    cases hknown : w.knownSize? g with
    | none => exact ⟨_, List.mem_cons_of_mem _ (List.mem_singleton_self _), Or.inl rfl⟩
    | some size =>
      dsimp only [pollSize] at h
      split_ifs at h
      rw [hknown] at h
      cases h
      exact ⟨_, List.mem_singleton_self _, Or.inr rfl⟩

end World

end NodeFleet.Fleet
