import NodeFleet.Proofs.SizeProtocol
import NodeFleet.Proofs.SizeTurns
import NodeFleet.Proofs.Ticks
/-!
Requests for the size of a group that wait while another asks for it. They are served in the order
in which they came. If the call is answered, they all share the answer, as long as each gets its
turn before the answer is as old as the period; if it fails, nothing is left behind that they could
share, and the next of them makes a call of its own.
-/

set_option autoImplicit false
set_option relaxedAutoImplicit false

namespace NodeFleet.Fleet

open NodeFleet.Quota SizeDeed

variable {α : Type}

/-! ### The line of a group -/

namespace World

variable {w : World α} {g : NodeGroup} {t : Ticket} {site : Site}

theorem line_leaveLine (w : World α) (g : NodeGroup) (t : Ticket) :
    ((w.leaveLine g t).cell g).line = (w.cell g).line.filter (· ≠ t) := by
  unfold leaveLine
  rw [cell_changeCell]
  split_ifs with hin
  · rfl
  · rw [cell_of_le (Nat.le_of_not_lt hin)]
    rfl

theorem line_recordSize (w : World α) (g : NodeGroup) (n : Nat) :
    ((w.recordSize g n).cell g).line = (w.cell g).line := by
  unfold recordSize
  rw [cell_changeCell]
  split_ifs
  · rfl
  · rfl

theorem line_joinLine (hin : g.serial < w.cells.size) (t : Ticket) :
    ((w.joinLine g t).cell g).line = (w.cell g).line ++ [t] := by
  unfold joinLine
  rw [cell_changeCell, if_pos hin]

theorem moment_of_mem_askingDeeds {now : Nat} {r : Progress SizePhase (Except Error Nat)}
    {d : SizeDeed} (h : d ∈ askingDeeds t now r) : d.moment = now := by
  cases r with
  | waiting phase => cases h
  | finished result =>
    obtain rfl := List.mem_singleton.mp h
    rfl

theorem moment_of_mem_sizeDeeds {phase : SizePhase} {r : Progress SizePhase (Except Error Nat)}
    {d : SizeDeed} (h : d ∈ w.sizeDeeds g t phase r) : d.moment = w.now := by
  cases phase with
  | asking i => exact moment_of_mem_askingDeeds h
  | queued =>
    rcases r with (_ | i) | result
    · cases h
    all_goals
      unfold sizeDeeds at h
      cases hknown : w.knownSize? g with
      | some n =>
        rw [hknown] at h
        obtain rfl := List.mem_singleton.mp h
        rfl
      | none =>
        rw [hknown] at h
        rcases List.mem_cons.mp h with rfl | h
        · rfl
        · exact moment_of_mem_askingDeeds h

/-- A step of a request leaves the line as it is, or serves the first in it. -/
structure Dismisses (g : NodeGroup) (t : Ticket) (w : World α)
    (r : World α × Progress SizePhase (Except Error Nat)) (deeds : List SizeDeed) : Prop where
  served : served deeds = match r.2 with
    | .waiting _ => []
    | .finished result => [(t, result)]
  line : (w.cell g).line = (SizeDeed.served deeds).map Prod.fst ++ (r.1.cell g).line

theorem Dismisses.finished {r : World α × Progress SizePhase (Except Error Nat)}
    {deeds : List SizeDeed} (h : Dismisses g t w r deeds) {x : Ticket × Except Error Nat}
    (hx : x ∈ SizeDeed.served deeds) : x.1 = t ∧ r.2 = .finished x.2 := by
  rw [h.served] at hx
  rcases r with ⟨w', phase | result⟩
  · cases hx
  · obtain rfl := List.mem_singleton.mp hx
    exact ⟨rfl, rfl⟩

theorem wrapSize_of_finished {r : World α × Progress SizePhase (Except Error Nat)}
    {result : Except Error Nat} (h : r.2 = .finished result) :
    (wrapSize g r).2 = .finished (ofResult .size result) := by
  rcases r with ⟨w', phase | result'⟩
  · cases h
  · cases h
    rfl

theorem line_of_first (hhead : (w.cell g).line.head? = some t) (hnodup : (w.cell g).line.Nodup) :
    (w.cell g).line = t :: (w.cell g).line.filter (· ≠ t) := by
  obtain ⟨rest, hline⟩ := List.head?_eq_some_iff.mp hhead
  rw [hline] at hnodup ⊢
  have hout : ∀ u ∈ rest, u ≠ t := fun u hu heq ↦ (List.nodup_cons.mp hnodup).1 (heq ▸ hu)
  rw [List.filter_cons_of_neg (by simp), List.filter_eq_self.mpr (by simpa using hout)]

variable [Balance α]

theorem dismisses_pollAsking (hhead : (w.cell g).line.head? = some t)
    (hnodup : (w.cell g).line.Nodup) (i : Inquiry) :
    Dismisses g t w (w.pollAsking site g t i)
      (askingDeeds t w.now (w.pollAsking site g t i).2) := by
  have hasked := (borne_steady g).pollInquiry w site (.scaleSet g.name) i
  have hfirst := line_of_first hhead hnodup
  unfold pollAsking
  rcases hpoll : w.pollInquiry site (.scaleSet g.name) i with ⟨w', i' | e | size⟩
  · rw [hpoll] at hasked
    exact ⟨rfl, congrArg SizeCell.line hasked.cell.symm⟩
  · rw [hpoll] at hasked
    refine ⟨rfl, hfirst.trans (congrArg (t :: ·) ?_)⟩
    show _ = ((w'.leaveLine g t).cell g).line
    rw [line_leaveLine, hasked.cell]
  · rw [hpoll] at hasked
    refine ⟨rfl, hfirst.trans (congrArg (t :: ·) ?_)⟩
    show _ = (((w'.recordSize g size.capacity).leaveLine g t).cell g).line
    rw [line_leaveLine, line_recordSize, hasked.cell]

/-- Whoever is served is the first in the line. -/
theorem dismisses_pollSize {phase : SizePhase}
    (hhead : ∀ i, phase = .asking i → (w.cell g).line.head? = some t)
    (hnodup : (w.cell g).line.Nodup) :
    Dismisses g t w (w.pollSize site g t phase)
      (w.sizeDeeds g t phase (w.pollSize site g t phase).2) := by
  cases phase with
  | asking i => exact dismisses_pollAsking (hhead i rfl) hnodup i
  | queued =>
    dsimp only [pollSize]
    by_cases hturn : w.hasTurn g t = true
    · rw [if_pos hturn]
      have hfirst : (w.cell g).line.head? = some t := eq_of_beq hturn
      cases hknown : w.knownSize? g with
      | some n =>
        unfold sizeDeeds
        rw [hknown]
        exact ⟨rfl, (line_of_first hfirst hnodup).trans
          (congrArg (t :: ·) (w.line_leaveLine g t).symm)⟩
      | none =>
        have hasks : Dismisses g t w (w.pollAsking site g t (.start site w.now)) _ :=
          dismisses_pollAsking hfirst hnodup _
        dsimp only
        rcases hpoll : w.pollAsking site g t (.start site w.now) with ⟨w', (_ | i) | result⟩
        · rw [hpoll] at hasks
          exact hasks
        all_goals
          rw [hpoll] at hasks
          unfold sizeDeeds
          rw [hknown]
          exact ⟨hasks.served, hasks.line⟩
    · rw [if_neg hturn]
      exact ⟨rfl, rfl⟩

end World

/-! ### Requests and their order -/

section

variable {g : NodeGroup} {f f' : Fleet α} {s : SizeState} {t : Ticket}

/-- How the line of a group goes with the requests for its size that are under way. -/
structure Lined (g : NodeGroup) (f : Fleet α) : Prop where
  nodup : (f.world.cell g).line.Nodup
  underway : ∀ t, t ∈ (f.world.cell g).line ↔ ∃ phase, f.activity? t = some (.sizing g phase)

theorem Lined.of_untouched (h : f.Lined g) (hf : f.Untouched g f') : f'.Lined g := by
  refine ⟨hf.cell ▸ h.nodup, fun t ↦ ?_⟩
  rw [hf.cell, h.underway]
  exact exists_congr fun phase ↦ (hf.activity t phase).symm

/-- After a step of one of them, the requests under way still are those in the line. -/
theorem lined_of_dismisses {w : World α} {r : World α × Progress SizePhase (Except Error Nat)}
    {deeds : List SizeDeed} (hd : w.Dismisses g t r deeds) (hnodup : (w.cell g).line.Nodup)
    (ht : t ∈ (w.cell g).line)
    (hothers : ∀ t', t' ≠ t →
      (t' ∈ (w.cell g).line ↔ ∃ phase, f'.activity? t' = some (.sizing g phase)))
    (hworld : f'.world = r.1)
    (hown : f'.activity? t = match r.2 with
      | .waiting phase => some (.sizing g phase)
      | .finished _ => none) : f'.Lined g := by
  obtain ⟨hserved, hline⟩ := hd
  rw [hline] at hnodup ht hothers
  refine ⟨hworld ▸ (List.nodup_append.mp hnodup).2.1, fun t' ↦ ?_⟩
  rw [hworld]
  rcases r with ⟨w', phase | result⟩
  · rw [hserved] at ht hothers
    by_cases heq : t' = t
    · rw [heq]
      exact iff_of_true ht ⟨phase, hown⟩
    · exact hothers t' heq
  · rw [hserved] at hnodup hothers
    by_cases heq : t' = t
    · rw [heq, hown]
      exact iff_of_false (List.nodup_cons.mp hnodup).1 fun ⟨_, h⟩ ↦ nomatch h
    · rw [← hothers t' heq]
      exact (List.mem_cons.trans (or_iff_right heq)).symm

theorem activity_of_wrapSize (r : World α × Progress SizePhase (Except Error Nat)) :
    (match (World.wrapSize g r).2 with
      | .waiting a => some a
      | .finished _ => none) = match r.2 with
        | .waiting phase => some (Activity.sizing g phase)
        | .finished _ => none := by
  rcases r with ⟨w', phase | result⟩
  · rfl
  · rfl

/-- The request that begins with an event. -/
def joins (f : Fleet α) (g : NodeGroup) : Event → List Ticket
  | .begin (.size g') => if g' = g then [f.nextTicket] else []
  | _ => []

theorem joins_begin (f : Fleet α) (g : NodeGroup) : f.joins g (.begin (.size g)) = [f.nextTicket] :=
  if_pos rfl

theorem joins_eq_nil {e : Event} (h : e ≠ .begin (.size g)) : f.joins g e = [] := by
  cases e with
  | begin o =>
    cases o with
    | size g' =>
      refine if_neg ?_
      rintro rfl
      exact h rfl
    | _ => rfl
  | _ => rfl

variable [Balance α]

/-- The requests for the size of a group that begin in a history, in their order. -/
def joined (f : Fleet α) (g : NodeGroup) : List Event → List Ticket
  | [] => []
  | e :: rest => f.joins g e ++ (f.step e).joined g rest

/-- What becomes of those who stand in the line between two moments: the first of them are served,
in their order, while the others of `joined` come to stand behind them. -/
structure Serves (g : NodeGroup) (f f' : Fleet α) (joined : List Ticket) (deeds : List SizeDeed) :
    Prop where
  order : (f.world.cell g).line ++ joined =
    (served deeds).map Prod.fst ++ (f'.world.cell g).line
  ended : ∀ x ∈ served deeds, f'.outcome? x.1 = some (World.ofResult .size x.2)
  lined : f'.Lined g

theorem Lined.begin (h : f.Lined g) (hf : f.Reachable) (hin : g.serial < f.world.cells.size) :
    Serves g f (f.begin (.size g)) (f.joins g (.begin (.size g)))
      (f.sizeDeeds g (.begin (.size g))) := by
  obtain ⟨hfresh, hnone⟩ := hf.fresh
  have hout : f.nextTicket ∉ (f.world.cell g).line := fun ht ↦ by
    obtain ⟨phase, hactivity⟩ := (h.underway _).mp ht
    cases hfresh.symm.trans hactivity
  have hjoined := World.line_joinLine hin f.nextTicket
  have hnodup : ((f.world.joinLine g f.nextTicket).cell g).line.Nodup := by
    rw [hjoined]
    exact List.nodup_append.mpr ⟨h.nodup, List.nodup_singleton _, fun u hu v hv heq ↦
      hout (List.mem_singleton.mp hv ▸ heq ▸ hu)⟩
  have hd : World.Dismisses g f.nextTicket (f.world.joinLine g f.nextTicket)
      (f.world.startSize f.site g f.nextTicket) (f.sizeDeeds g (.begin (.size g))) := by
    rw [sizeDeeds_begin]
    exact World.dismisses_pollSize (fun i hi ↦ nomatch hi) hnodup
  have hworld : (f.begin (.size g)).world = (f.world.startSize f.site g f.nextTicket).1 :=
    (world_begin f _).trans (World.wrap_world _ _ _)
  refine ⟨?_, fun x hx ↦ ?_, lined_of_dismisses hd hnodup ?_ (fun t' ht' ↦ ?_) hworld ?_⟩
  · rw [joins_begin, ← hjoined, hworld]
    exact hd.line
  · obtain ⟨hticket, hfinished⟩ := hd.finished hx
    have hstarted : (f.world.startOperation f.site f.nextTicket (.size g)).2 =
        .finished (World.ofResult .size x.2) := World.wrapSize_of_finished hfinished
    rw [hticket, outcome?_begin, hnone, hstarted]
    exact if_pos rfl
  · rw [hjoined]
    exact List.mem_append_right _ (List.mem_singleton_self _)
  · rw [hjoined, List.mem_append, h.underway, or_iff_left (by simpa using ht')]
    rw [activity?_begin_of_ne f _ ht']
  · rw [activity?_begin_self hfresh]
    exact activity_of_wrapSize _

theorem Lined.poll (h : f.Lined g) (hs : f.Sizing g s) (hf : f.Reachable) {phase : SizePhase}
    (hactivity : f.activity? t = some (.sizing g phase)) :
    Serves g f (f.poll t) [] (f.sizeDeeds g (.poll t)) := by
  have ht : t ∈ (f.world.cell g).line := (h.underway t).mpr ⟨phase, hactivity⟩
  have hhead : ∀ i, phase = .asking i → (f.world.cell g).line.head? = some t := by
    rintro i rfl
    exact hs.written.turn t ((hs.busy t).mpr ⟨i, hactivity⟩)
  have hd : f.world.Dismisses g t (f.world.pollSize f.site g t phase)
      (f.sizeDeeds g (.poll t)) := by
    rw [sizeDeeds_poll hactivity]
    exact World.dismisses_pollSize hhead h.nodup
  have hpoll : f.poll t = f.settle t (f.world.pollActivity f.site t (.sizing g phase)) := by
    unfold Fleet.poll
    rw [hactivity]
  have hworld : (f.poll t).world = (f.world.pollSize f.site g t phase).1 := by
    rw [hpoll, world_settle]
    exact World.wrap_world _ _ _
  refine ⟨?_, fun x hx ↦ ?_, lined_of_dismisses hd h.nodup ht (fun t' ht' ↦ ?_) hworld ?_⟩
  · rw [List.append_nil, hworld]
    exact hd.line
  · obtain ⟨hticket, hfinished⟩ := hd.finished hx
    have hpolled : (f.world.pollActivity f.site t (.sizing g phase)).2 =
        .finished (World.ofResult .size x.2) := World.wrapSize_of_finished hfinished
    rw [hticket, hpoll, outcome?_settle, hf.outcome?_of_activity hactivity, hpolled]
    exact if_pos rfl
  · rw [h.underway]
    rw [hpoll, activity?_settle hactivity, if_neg ht']
  · rw [hpoll, activity?_settle hactivity, if_pos rfl]
    exact activity_of_wrapSize _

theorem Lined.step (h : f.Lined g) (hs : f.Sizing g s) (hf : f.Reachable) {e : Event}
    (he : f.Alone g e) (hmade : e = .begin (.size g) → g.serial < f.world.cells.size) :
    Serves g f (f.step e) (f.joins g e) (f.sizeDeeds g e) := by
  by_cases hconcerns : f.Concerns g e
  · cases hconcerns with
    | begin => exact h.begin hf (hmade rfl)
    | poll hactivity => exact h.poll hs hf hactivity
  · obtain ⟨hdeeds, huntouched⟩ := untouched_step hf.fresh.1 he hconcerns
    have hjoins : f.joins g e = [] := joins_eq_nil fun hbegin ↦ hconcerns (hbegin ▸ .begin)
    rw [hdeeds, hjoins]
    exact ⟨(List.append_nil _).trans (congrArg SizeCell.line huntouched.cell.symm),
      fun _ hx ↦ (nomatch hx), h.of_untouched huntouched⟩

/-! ### Histories -/

theorem joined_concat (f : Fleet α) (g : NodeGroup) (events : List Event) (e : Event) :
    f.joined g (events ++ [e]) = f.joined g events ++ (f.after events).joins g e := by
  induction events generalizing f with
  | nil => exact List.append_nil _
  | cons x rest ih =>
    show f.joins g x ++ (f.step x).joined g (rest ++ [e]) = _
    rw [ih, ← List.append_assoc]
    rfl

/-- Requests that begin later have later tickets. -/
theorem joined_pairwise (f : Fleet α) (g : NodeGroup) (events : List Event) :
    (f.joined g events).Pairwise (· < ·) ∧ ∀ t ∈ f.joined g events, f.nextTicket ≤ t := by
  induction events generalizing f with
  | nil => exact ⟨.nil, fun _ ht ↦ nomatch ht⟩
  | cons e rest ih =>
    obtain ⟨hrest, hlater⟩ := ih (f.step e)
    unfold joined
    by_cases he : e = .begin (.size g)
    · obtain rfl := he
      have hnext : (f.step (.begin (.size g))).nextTicket = f.nextTicket + 1 := f.nextTicket_begin _
      rw [hnext] at hlater
      rw [joins_begin]
      refine ⟨List.pairwise_cons.mpr ⟨hlater, hrest⟩, fun t ht ↦ ?_⟩
      rcases List.mem_cons.mp ht with rfl | ht
      · exact Nat.le_refl _
      · exact Nat.le_of_succ_le (hlater t ht)
    · rw [joins_eq_nil he]
      refine ⟨hrest, fun t ht ↦ Nat.le_trans ?_ (hlater t ht)⟩
      rw [(f.site_step e).2]
      exact Nat.le_add_right _ _

theorem cells_step (f : Fleet α) (e : Event) :
    f.world.cells.size ≤ (f.step e).world.cells.size :=
  World.borne_size.step f (fun w g change ↦ Nat.le_of_eq (w.size_changeCell g change).symm)
    (fun _ _ _ _ ↦ Nat.le_refl _) fun _ _ ↦ Nat.le_refl _

/-- Handles that have been made stay made. -/
theorem cells_after (f : Fleet α) (events : List Event) :
    f.world.cells.size ≤ (f.after events).world.cells.size := by
  induction events generalizing f with
  | nil => exact Nat.le_refl _
  | cons e rest ih => exact Nat.le_trans (f.cells_step e) (ih (f.step e))

/-- What an event does about a size it does at its moment. -/
theorem moment_of_mem {e : Event} {d : SizeDeed} (h : d ∈ f.sizeDeeds g e) :
    d.moment = f.world.now := by
  cases e with
  | begin o =>
    cases o with
    | size g' =>
      dsimp only [sizeDeeds] at h
      split_ifs at h
      · exact World.moment_of_mem_sizeDeeds (w := f.world.joinLine g f.nextTicket) h
      · cases h
    | _ => cases h
  | poll t =>
    dsimp only [sizeDeeds] at h
    split at h
    · split_ifs at h
      · exact World.moment_of_mem_sizeDeeds h
      · cases h
    · cases h
  | _ => cases h

theorem sizeLedger_pairwise (f : Fleet α) (g : NodeGroup) (events : List Event) :
    ((f.sizeLedger g events).Pairwise fun d d' ↦ d.moment ≤ d'.moment) ∧
      ∀ d ∈ f.sizeLedger g events, f.world.now ≤ d.moment := by
  induction events generalizing f with
  | nil => exact ⟨.nil, fun _ hd ↦ nomatch hd⟩
  | cons e rest ih =>
    obtain ⟨hrest, hlater⟩ := ih (f.step e)
    rw [now_step] at hlater
    have hstill : ∀ d ∈ (f.step e).sizeLedger g rest, f.world.now ≤ d.moment := fun d hd ↦
      Nat.le_of_add_right_le (hlater d hd)
    refine ⟨List.pairwise_append.mpr ⟨?_, hrest, fun d hd d' hd' ↦ ?_⟩, fun d hd ↦ ?_⟩
    · exact List.pairwise_of_forall_mem_list fun d hd d' hd' ↦
        Nat.le_of_eq ((moment_of_mem hd).trans (moment_of_mem hd').symm)
    · rw [moment_of_mem hd]
      exact hstill d' hd'
    · rcases List.mem_append.mp hd with hd | hd
      · exact Nat.le_of_eq (moment_of_mem hd).symm
      · exact hstill d hd

omit [Balance α] in
/-- Those who stand behind a call that is under way are the others that wait. -/
theorem Lined.mem_waiting_iff (h : f.Lined g) (hs : f.Sizing g s) {i : Inquiry}
    (hasking : f.activity? t = some (.sizing g (.asking i))) {waiting : List Ticket}
    (hline : (f.world.cell g).line = t :: waiting) (u : Ticket) :
    u ∈ waiting ↔ f.activity? u = some (.sizing g .queued) := by
  obtain ⟨hnodup, hunderway⟩ := h
  rw [hline] at hnodup hunderway
  constructor
  · intro hu
    obtain ⟨phase, hactivity⟩ := (hunderway u).mp (List.mem_cons_of_mem _ hu)
    cases phase with
    | queued => exact hactivity
    | asking i' =>
      have hbusy := (hs.busy t).mpr ⟨i, hasking⟩
      obtain rfl := Option.some.inj (hbusy.symm.trans ((hs.busy u).mpr ⟨i', hactivity⟩))
      exact absurd hu (List.nodup_cons.mp hnodup).1
  · intro hqueued
    rcases List.mem_cons.mp ((hunderway u).mpr ⟨_, hqueued⟩) with rfl | hu
    · cases hasking.symm.trans hqueued
    · exact hu

/-- Nobody stands in the line twice, neither at once nor one time after the other. -/
theorem Lined.nodup_joined (h : f.Lined g) (hf : f.Reachable) (events : List Event) :
    ((f.world.cell g).line ++ f.joined g events).Nodup := by
  obtain ⟨hjoined, hlater⟩ := f.joined_pairwise g events
  refine List.nodup_append.mpr ⟨h.nodup, hjoined.imp Nat.ne_of_lt, fun u hu v hv heq ↦ ?_⟩
  obtain ⟨phase, hactivity⟩ := (h.underway u).mp hu
  cases (hf.none_of_le (heq ▸ hlater v hv)).1.symm.trans hactivity

end

section

variable [Balance α] (site : Site) (cloud : Cloud) (files : Files) (quotas : Option (Quotas α))
  {g : NodeGroup} {before during : List Event}

theorem serves_after
    (hg : ∀ g', .begin (.size g') ∈ before ++ during → g'.serial = g.serial → g' = g)
    (hmade : ∀ earlier, earlier ++ [.begin (.size g)] <+: before ++ during →
      g.serial < ((fresh site cloud files quotas).after earlier).world.cells.size)
    (hlined : ((fresh site cloud files quotas).after before).Lined g) :
    Serves g ((fresh site cloud files quotas).after before)
      ((fresh site cloud files quotas).after (before ++ during))
      (((fresh site cloud files quotas).after before).joined g during)
      (((fresh site cloud files quotas).after before).sizeLedger g during) := by
  induction during using List.reverseRecOn with
  | nil =>
    rw [List.append_nil]
    exact ⟨List.append_nil _, fun _ hx ↦ (nomatch hx), hlined⟩
  | append_singleton during e ih =>
    rw [← List.append_assoc] at hg hmade ⊢
    have hearlier := ih (fun g' hg' ↦ hg g' (List.mem_append_left _ hg')) fun earlier h ↦
      hmade earlier (h.trans (List.prefix_append _ _))
    have hsizing := (lawful_after site cloud files quotas fun g' hg' ↦
      hg g' (List.mem_append_left _ hg')).2
    have hstep := hearlier.lined.step hsizing ⟨site, cloud, files, quotas, _, rfl⟩
      (alone_after site cloud files quotas hg) fun he ↦ hmade _ (he ▸ List.prefix_refl _)
    rw [joined_concat, sizeLedger_concat, ← after_append, after_concat]
    refine ⟨?_, fun x hx ↦ ?_, hstep.lined⟩
    · rw [← List.append_assoc, hearlier.order, List.append_assoc, hstep.order, served_append,
        List.map_append, List.append_assoc]
    · rw [served_append] at hx
      rcases List.mem_append.mp hx with hold | hnew
      · exact outcome?_step_of_some (hearlier.ended x hold) e
      · exact hstep.ended x hnew

theorem lined_after
    (hg : ∀ g', .begin (.size g') ∈ before → g'.serial = g.serial → g' = g)
    (hmade : ∀ earlier, earlier ++ [.begin (.size g)] <+: before →
      g.serial < ((fresh site cloud files quotas).after earlier).world.cells.size) :
    ((fresh site cloud files quotas).after before).Lined g := by
  rw [← List.nil_append before] at hg hmade
  exact (serves_after site cloud files quotas hg hmade
    ⟨.nil, fun _ ↦ iff_of_false (fun h ↦ nomatch h) fun ⟨_, h⟩ ↦ nomatch h⟩).lined

/-- Whether the requests in a line share the call that the first of them has under way: none of them
makes a call from now on, and they all come to what it comes to. -/
structure Shares (f : Fleet α) (g : NodeGroup) (t : Ticket) (waiting : List Ticket)
    (during : List Event) : Prop where
  single : ∀ u ∈ t :: waiting, ∀ now, .asked u now ∉ f.sizeLedger g during
  shared : ∀ u ∈ waiting, (f.after during).outcome? u = (f.after during).outcome? t

/-- What becomes of the requests that wait for the size of a group while the call of `t` is under
way. -/
structure SharingLaw (f : Fleet α) (g : NodeGroup) (t : Ticket) (waiting : List Ticket)
    (during : List Event) : Prop where
  /-- They are all the other requests that are under way. -/
  underway : ∀ u, u ∈ waiting ↔ f.activity? u = some (.sizing g .queued)
  /-- Requests are served in the order in which they began. -/
  order : t :: waiting ++ f.joined g during =
    (served (f.sizeLedger g during)).map Prod.fst ++ ((f.after during).world.cell g).line
  ended : ∀ x ∈ served (f.sizeLedger g during),
    (f.after during).outcome? x.1 = some (World.ofResult .size x.2)
  /-- Whoever comes after a call that has failed makes a call of its own. -/
  relayed : ∀ earlier u e fault d later, f.sizeLedger g during =
    earlier ++ .ended u e (.error fault) :: d :: later → ∃ u' now, d = .asked u' now
  /-- Once they are over, they have shared the call just when nobody waited, or the call was
  answered and each of them had its turn before the answer was as old as the period. -/
  shared : (∀ u ∈ t :: waiting, (f.after during).outcome? u ≠ none) →
    ∃ e result, .ended t e result ∈ f.sizeLedger g during ∧
      (f.Shares g t waiting during ↔ waiting = [] ∨ ∃ n, result = .ok n ∧
        ∀ u ∈ waiting, ∀ now, (u, now) ∈ turns (f.sizeLedger g during) →
          g.sizePeriod.outlasts (now - e) = true)

/-- If all of them are over, they have been served first. -/
theorem exists_served_eq_append {f : Fleet α} {tickets later : List Ticket} {deeds : List SizeDeed}
    (hf : (f.after during).Reachable) (hlined : (f.after during).Lined g)
    (horder : tickets ++ later =
      (served deeds).map Prod.fst ++ ((f.after during).world.cell g).line)
    (hover : ∀ u ∈ tickets, (f.after during).outcome? u ≠ none) :
    ∃ more, (served deeds).map Prod.fst = tickets ++ more := by
  rcases List.append_eq_append_iff.mp horder with ⟨more, hserved, -⟩ | ⟨more, htickets, hline⟩
  · exact ⟨more, hserved⟩
  · cases more with
    | nil => exact ⟨[], by rw [htickets, List.append_nil, List.append_nil]⟩
    | cons u more =>
      have hwaits : u ∈ ((f.after during).world.cell g).line := hline ▸ List.mem_cons_self
      obtain ⟨phase, hactivity⟩ := (hlined.underway u).mp hwaits
      refine absurd (hf.outcome?_of_activity hactivity) (hover u ?_)
      rw [htickets]
      exact List.mem_append_right _ List.mem_cons_self

/-- When the line has been served up to those who wait, they have shared the call or not. -/
theorem shares_iff {f : Fleet α} {s : SizeState} {t e : Nat} {result : Except Error Nat}
    {earlier rest : List SizeDeed} {waiting more : List Ticket}
    (hlawful : s.Lawful g.sizePeriod (earlier ++ .ended t e result :: rest)) (hidle : s.busy = none)
    (hmoments : (earlier ++ .ended t e result :: rest).Pairwise fun d d' ↦ d.moment ≤ d'.moment)
    (hs : (f.after during).Sizing g (s.afterAll (earlier ++ .ended t e result :: rest)))
    (hledger : f.sizeLedger g during = .ended t e result :: rest)
    (hover : ∀ x ∈ served (f.sizeLedger g during),
      (f.after during).outcome? x.1 = some (World.ofResult .size x.2))
    (hserved : (served rest).map Prod.fst = waiting ++ more)
    (hnodup : (t :: (waiting ++ more) ++ ((f.after during).world.cell g).line).Nodup) :
    f.Shares g t waiting during ↔ waiting = [] ∨ ∃ n, result = .ok n ∧
      ∀ u ∈ waiting, ∀ now, (u, now) ∈ turns (f.sizeLedger g during) →
        g.sizePeriod.outlasts (now - e) = true := by
  obtain ⟨hburst, -, hgone⟩ := List.nodup_append.mp hnodup
  obtain ⟨hout, hothers⟩ := List.nodup_cons.mp hburst
  have hafter := (SizeState.lawful_append.mp hlawful).2
  have hsingle := hlawful.single_iff hidle hmoments hserved hothers
  have hmem : ∀ {u now}, .asked u now ∈ f.sizeLedger g during ↔ .asked u now ∈ rest := by
    intro u now
    rw [hledger]
    exact List.mem_cons.trans (or_iff_right fun h ↦ nomatch h)
  have hturns : turns (f.sizeLedger g during) = turns rest := by
    rw [hledger]
    rfl
  rw [hledger] at hover
  rw [hturns, ← hsingle]
  constructor
  · intro hshares u hu now hasked
    exact hshares.single u (List.mem_cons_of_mem _ hu) now (hmem.mpr hasked)
  · intro hnone
    refine ⟨fun u hu now hasked ↦ ?_, fun u hu ↦ ?_⟩
    · rcases List.mem_cons.mp hu with rfl | hu
      · -- Whoever asks again is in the line again, or served a second time.
        rcases hafter.2.busy_or_served (hmem.mp hasked) with hagain | hagain
        · rw [SizeState.afterAll_append] at hs
          have hfirst := List.mem_of_mem_head? (hs.written.turn u hagain)
          exact hgone u List.mem_cons_self u hfirst rfl
        · rw [hserved] at hagain
          exact hout hagain
      · exact hnone u hu now (hmem.mp hasked)
    · rcases hsingle.mp hnone with rfl | ⟨n, rfl, -⟩
      · cases hu
      · have hshared := (hafter.shares hserved hothers hnone u hu).1
        exact (hover _ (List.mem_cons_of_mem _ hshared)).trans (hover _ List.mem_cons_self).symm

/-- Requests that wait for a call share it just when it is answered and they have their turns while
the answer is young; a failure they do not share, and the next of them asks again. -/
theorem sharing_law_after {t : Ticket} {waiting : List Ticket} {i : Inquiry}
    (hg : ∀ g', .begin (.size g') ∈ before ++ during → g'.serial = g.serial → g' = g)
    (hmade : ∀ earlier, earlier ++ [.begin (.size g)] <+: before ++ during →
      g.serial < ((fresh site cloud files quotas).after earlier).world.cells.size)
    (hasking : ((fresh site cloud files quotas).after before).activity? t =
      some (.sizing g (.asking i)))
    (hline : (((fresh site cloud files quotas).after before).world.cell g).line = t :: waiting) :
    ((fresh site cloud files quotas).after before).SharingLaw g t waiting during := by
  have hlined :=
    lined_after site cloud files quotas (fun g' hg' ↦ hg g' (List.mem_append_left _ hg'))
    fun earlier h ↦ hmade earlier (h.trans (List.prefix_append _ _))
  have hsizing := (lawful_after site cloud files quotas fun g' hg' ↦
    hg g' (List.mem_append_left _ hg')).2
  obtain ⟨hlawful, hsizing'⟩ := lawful_after site cloud files quotas hg
  have hmoments := ((fresh site cloud files quotas).sizeLedger_pairwise g (before ++ during)).1
  have hserves := serves_after site cloud files quotas hg hmade hlined
  have hreachable : ((fresh site cloud files quotas).after before).Reachable :=
    ⟨site, cloud, files, quotas, before, rfl⟩
  have hnodup := hlined.nodup_joined hreachable during
  rw [sizeLedger_append] at hlawful hmoments hsizing'
  rw [after_append] at hserves hsizing'
  have horder := hserves.order
  rw [hline] at horder
  refine ⟨hlined.mem_waiting_iff hsizing hasking hline, horder, hserves.ended, ?_, fun hover ↦ ?_⟩
  · intro earlier u e fault d later heq
    rw [heq, ← List.append_assoc] at hlawful hmoments
    exact hlawful.asked_of_failed rfl hmoments
  · obtain ⟨more, hserved⟩ :=
      exists_served_eq_append (hreachable.after during) hserves.lined horder hover
    rw [hline, horder, hserved] at hnodup
    have hne : ((fresh site cloud files quotas).after before).sizeLedger g during ≠ [] := by
      intro hnil
      rw [hnil] at hserved
      cases hserved
    obtain ⟨e, result, rest, hledger⟩ :=
      (SizeState.lawful_append.mp hlawful).2.eq_cons ((hsizing.busy t).mpr ⟨i, hasking⟩) hne
    rw [hledger] at hserved hlawful hmoments hsizing'
    exact ⟨e, result, hledger ▸ List.mem_cons_self, shares_iff hlawful rfl hmoments hsizing' hledger
      hserves.ended (List.cons.inj hserved).2 hnodup⟩

end

/-- The handle that a registration in an empty fleet makes. -/
def firstHandle : NodeGroup :=
  ⟨0, "db", ⟨1, 3⟩, defaultSizePeriod⟩

/-- The second request recalls what the first is answered, and the third, which
begins later, fails. -/
theorem sharing_law_after_requests :
    (smallFleet.after ((sizeRequests firstHandle).take 3)).SharingLaw firstHandle 0 [1]
        ((sizeRequests firstHandle).drop 3) ∧
      (smallFleet.after ((sizeRequests firstHandle).take 3)).joined firstHandle
        ((sizeRequests firstHandle).drop 3) = [2] := by
  have hmade : 0 < (smallFleet.step (.register ⟨"db", ⟨1, 3⟩⟩)).world.cells.size := by
    decide +kernel
  refine ⟨sharing_law_after smallSite (.account smallAccount) .empty none ?_ ?_ rfl rfl, rfl⟩
  · simp [sizeRequests]
  · intro earlier h
    rw [List.take_append_drop] at h
    cases earlier with
    | nil => cases (List.cons_prefix_cons.mp h).1
    | cons x earlier =>
      obtain ⟨rfl, -⟩ := List.cons_prefix_cons.mp h
      exact Nat.lt_of_lt_of_le hmade (cells_after _ earlier)

/-- Two requests for a size that nobody knows, made together while the cloud is down. -/
def rebuffed : List Event :=
  [.register ⟨"db", ⟨1, 3⟩⟩, .account fun a ↦ a.setFailure (some "down"),
    .begin (.size firstHandle), .begin (.size firstHandle)]

/-- What comes of them. -/
def rebuffs : List Event :=
  [.elapse 10, .poll 0, .poll 1, .elapse 10, .poll 1]

/-- The call of the first fails, and the second makes a call of its own. -/
theorem not_shares_rebuffed :
    (∃ i, (smallFleet.after rebuffed).activity? 0 = some (.sizing firstHandle (.asking i))) ∧
      ((smallFleet.after rebuffed).world.cell firstHandle).line = [0, 1] ∧
        (∀ u ∈ [0, 1], ((smallFleet.after rebuffed).after rebuffs).outcome? u ≠ none) ∧
          ¬ (smallFleet.after rebuffed).Shares firstHandle 0 [1] rebuffs := by
  refine ⟨⟨_, rfl⟩, rfl, ?_, fun hshares ↦ ?_⟩
  · have hover : ∀ u ∈ [0, 1],
        (((smallFleet.after rebuffed).after rebuffs).outcome? u).isSome = true := by decide +kernel
    exact fun u hu hnone ↦ by simpa [hnone] using hover u hu
  obtain ⟨e, hledger⟩ : ∃ e, (smallFleet.after rebuffed).sizeLedger firstHandle rebuffs =
      [.ended 0 10 (.error e), .asked 1 10, .ended 1 20 (.error e)] := ⟨_, rfl⟩
  refine hshares.single 1 (by simp) 10 ?_
  rw [hledger]
  simp

end NodeFleet.Fleet
