import NodeFleet.Proofs.Calls
/-!
Who stands in the line of the gate. Everybody in it is an activity that is under way; an activity
joins it with the beginning of a cycle and has left it when the cycle ends, so a fleet at which
nothing is under way has nobody at its gate.
-/

set_option autoImplicit false
set_option relaxedAutoImplicit false

namespace NodeFleet.Fleet

open NodeFleet.Discovery NodeFleet.Quota

variable {α : Type}

/-- How an activity stands to the line of the gate at a stage of its cycle. -/
def Stage.StandsIn (gate : List Ticket) (t : Ticket) : Stage → Prop
  | idle => t ∉ gate
  | planned b _ => b.ticket = t
  | _ => True

theorem Stage.StandsIn.of_subset {s : Stage} {gate gate' : List Ticket} {t : Ticket}
    (h : s.StandsIn gate t) (hsub : t ∈ gate' → t ∈ gate) : s.StandsIn gate' t := by
  cases s with
  | idle => exact fun ht ↦ h (hsub ht)
  | _ => exact h

/-- The line of the gate once an activity has gone on, with nobody in it who was
not there before. -/
structure World.Lined (gate : List Ticket) (t : Ticket) (w : World α) (s : Stage) : Prop where
  others : ∀ t' ∈ w.gate, t' = t ∨ t' ∈ gate
  own : s.StandsIn w.gate t

namespace World.Lined

variable {gate : List Ticket} {t : Ticket} {w w' : World α} {s s' : Stage}

theorem of_gate (h : w.Lined gate t s) (hgate : w'.gate = w.gate) : w'.Lined gate t s := by
  refine ⟨?_, ?_⟩
  · rw [hgate]
    exact h.others
  · rw [hgate]
    exact h.own

/-- Whoever leaves the line is idle. -/
theorem leave (h : w.Lined gate t s) (hgate : w'.gate = w.gate.filter (· ≠ t)) :
    w'.Lined gate t .idle := by
  refine ⟨fun t' ht' ↦ ?_, fun ht ↦ ?_⟩
  · rw [hgate] at ht'
    exact h.others t' (List.mem_of_mem_filter ht')
  · rw [hgate] at ht
    simpa using List.of_mem_filter ht

theorem tended [Balance α] (gate : List Ticket) (site : Site) (t : Ticket) :
    Tended site t fun (w : World α) s ↦ w.Lined gate t s where
  asking s :=
    { refl := fun _ h ↦ h
      trans := fun h h' hw ↦ h' (h hw)
      attempt := fun w resourceGroup q hw ↦
        hw.of_gate (World.asking_inquired.attempt w resourceGroup q).gate
      newGroup := fun w c period hw ↦ hw.of_gate rfl }
  join {w} h := by
    refine ⟨fun t' ht' ↦ ?_, trivial⟩
    rcases List.mem_append.mp ht' with hold | hnew
    · exact h.others t' hold
    · exact Or.inl (List.mem_singleton.mp hnew)
  take h := ⟨h.others, trivial⟩
  fault _ _ _ _ h := h.leave rfl
  plan {w} cycle listed candidates _ h := by
    have hgate := (World.asking_inquired.newGroups
      ({ w with journal := w.journal.settle } : World α) candidates).gate
    refine ⟨?_, rfl⟩
    rw [hgate]
    exact h.others
  fail {w b plan} h _ _ := by
    have hticket : b.ticket = t := h.own
    exact h.leave (hticket ▸ rfl)
  conclude {w b plan} h _ _ := by
    have hticket : b.ticket = t := h.own
    exact h.leave (hticket ▸ rfl)
  noted h := h.of_gate rfl

end World.Lined

/-- Everybody in the line of the gate is under way. -/
structure Staffed (f : Fleet α) : Prop where
  known : ∀ e ∈ f.activities, e.1 < f.nextTicket
  staffed : ∀ t ∈ f.world.gate, ∃ e ∈ f.activities, e.1 = t
  stands : ∀ e ∈ f.activities, e.2.stage.StandsIn f.world.gate e.1

namespace Staffed

variable {f : Fleet α}

theorem of_gate (h : f.Staffed) {w : World α} (hgate : w.gate = f.world.gate) :
    ({ f with world := w } : Fleet α).Staffed := by
  refine ⟨h.known, ?_, ?_⟩
  · show ∀ t ∈ w.gate, ∃ e ∈ f.activities, e.1 = t
    rw [hgate]
    exact h.staffed
  · show ∀ e ∈ f.activities, e.2.stage.StandsIn w.gate e.1
    rw [hgate]
    exact h.stands

/-- Those with other tickets stand to the line as before. -/
theorem stands_of_lined (h : f.Staffed) {w : World α} {t : Ticket} {s : Stage}
    (hw : w.Lined f.world.gate t s) {e : Ticket × Activity} (he : e ∈ f.activities)
    (hne : e.1 ≠ t) : e.2.stage.StandsIn w.gate e.1 :=
  (h.stands e he).of_subset fun hin ↦ (hw.others e.1 hin).resolve_left hne

theorem settle (h : f.Staffed) {t : Ticket} {a : Activity} (ha : (t, a) ∈ f.activities) {r : Step α}
    (hr : r.1.Lined f.world.gate t (Activity.stageAfter r.2)) : (f.settle t r).Staffed := by
  have ht : t < f.nextTicket := h.known (t, a) ha
  rcases r with ⟨w, a' | o⟩
  · have hmem : ∀ e ∈ f.activities, (if e.1 = t then (t, a') else e) ∈
        (f.settle t (w, .waiting a')).activities := fun e he ↦ List.mem_map_of_mem he
    refine ⟨?_, ?_, ?_⟩
    · intro e he
      obtain ⟨old, hold, rfl⟩ := List.mem_map.mp he
      split_ifs
      · exact ht
      · exact h.known old hold
    · intro t' ht'
      by_cases hsame : t' = t
      · exact ⟨(t, a'), by simpa using hmem _ ha, hsame.symm⟩
      · obtain ⟨e, he, rfl⟩ := h.staffed t' ((hr.others t' ht').resolve_left hsame)
        exact ⟨e, by simpa [hsame] using hmem e he, rfl⟩
    · intro e he
      obtain ⟨old, hold, rfl⟩ := List.mem_map.mp he
      split_ifs with hsame
      · exact hr.own
      · exact h.stands_of_lined hr hold hsame
  · refine ⟨?_, ?_, ?_⟩
    · exact fun e he ↦ h.known e (List.mem_of_mem_filter he)
    · intro t' ht'
      have hne : t' ≠ t := fun hsame ↦ hr.own (hsame ▸ ht')
      obtain ⟨e, he, rfl⟩ := h.staffed t' ((hr.others t' ht').resolve_left hne)
      exact ⟨e, List.mem_filter.mpr ⟨he, decide_eq_true hne⟩, rfl⟩
    · intro e he
      obtain ⟨hold, hne⟩ := List.mem_filter.mp he
      exact h.stands_of_lined hr hold (of_decide_eq_true hne)

variable [Balance α]

theorem begin (h : f.Staffed) (o : Operation) : (f.begin o).Staffed := by
  have hout : f.nextTicket ∉ f.world.gate := by
    intro hin
    obtain ⟨e, he, hticket⟩ := h.staffed _ hin
    exact Nat.lt_irrefl _ (hticket ▸ h.known e he)
  have hfirst : f.world.Lined f.world.gate f.nextTicket .idle := ⟨fun t ht ↦ Or.inr ht, hout⟩
  have hbegun := (World.Lined.tended f.world.gate f.site f.nextTicket).begin
    (fun g cell hw ↦ hw.of_gate rfl) o hfirst
  have hothers : ∀ e ∈ f.activities, e.1 ≠ f.nextTicket := fun e he ↦ Nat.ne_of_lt (h.known e he)
  have hknown : ∀ e ∈ f.activities, e.1 < f.nextTicket + 1 := fun e he ↦
    Nat.lt_succ_of_lt (h.known e he)
  unfold Fleet.begin
  rcases hstart : f.world.startOperation f.site f.nextTicket o with ⟨w, a | x⟩
  · rw [hstart] at hbegun
    refine ⟨?_, ?_, ?_⟩
    · intro e he
      rcases List.mem_append.mp he with hold | hnew
      · exact hknown e hold
      · obtain rfl := List.mem_singleton.mp hnew
        exact Nat.lt_succ_self _
    · intro t ht
      rcases hbegun.others t ht with rfl | hold
      · exact ⟨(f.nextTicket, a), List.mem_append_right _ (List.mem_singleton_self _), rfl⟩
      · obtain ⟨e, he, rfl⟩ := h.staffed t hold
        exact ⟨e, List.mem_append_left _ he, rfl⟩
    · intro e he
      rcases List.mem_append.mp he with hold | hnew
      · exact h.stands_of_lined hbegun hold (hothers e hold)
      · obtain rfl := List.mem_singleton.mp hnew
        exact hbegun.own
  · rw [hstart] at hbegun
    refine ⟨hknown, ?_, ?_⟩
    · intro t ht
      exact h.staffed t ((hbegun.others t ht).resolve_left fun hsame ↦ hbegun.own (hsame ▸ ht))
    · exact fun e he ↦ h.stands_of_lined hbegun he (hothers e he)

theorem step (h : f.Staffed) (e : Event) : (f.step e).Staffed := by
  cases e with
  | begin o => exact h.begin o
  | poll t =>
    show (f.poll t).Staffed
    unfold Fleet.poll
    cases hactivity : f.activity? t with
    | none => exact h
    | some a =>
      have hmem := mem_of_activity? hactivity
      have hnow : f.world.Lined f.world.gate t a.stage := ⟨fun t' ht' ↦ Or.inr ht', h.stands _ hmem⟩
      exact h.settle hmem ((World.Lined.tended f.world.gate f.site t).poll
        (fun g cell hw ↦ hw.of_gate rfl) hnow)
  | stop t =>
    show (f.stop t).Staffed
    unfold Fleet.stop
    split
    · rename_i r hactivity
      have hmem := mem_of_activity? hactivity
      have hstands : r.stop.stage.StandsIn f.world.gate t := h.stands _ hmem
      refine h.settle hmem ⟨fun t' ht' ↦ Or.inr ht', ?_⟩
      dsimp only [World.wrapRefresher]
      split_ifs with hover
      · have hidle : r.stop.running = none :=
          Option.isNone_iff_eq_none.mp (Bool.and_eq_true_iff.mp hover).2
        unfold Refresher.stage at hstands
        rw [hidle] at hstands
        exact hstands
      · exact hstands
    · exact h
  | account change => exact h.of_gate (journal_changeAccount f.world change).2.2
  | replace candidates instances =>
    exact h.of_gate (World.asking_inquired.newGroups f.world candidates).gate
  | _ => exact h.of_gate rfl

end Staffed

variable [Balance α] {f : Fleet α}

theorem Reachable.staffed (hf : f.Reachable) : f.Staffed := by
  obtain ⟨site, cloud, files, quotas, events, rfl⟩ := hf
  induction events using List.reverseRecOn with
  | nil =>
    exact ⟨fun e he ↦ absurd he List.not_mem_nil, fun t ht ↦ absurd ht List.not_mem_nil,
      fun e he ↦ absurd he List.not_mem_nil⟩
  | append_singleton before e ih =>
    rw [after_concat]
    exact ih.step e

theorem stage_of_cycles {site : Site} {a : Activity} (ha : a.cycles site = []) :
    a.stage = .idle := by
  cases a with
  | discovering errand phase => cases errand <;> cases ha
  | refreshing x => cases ha
  | _ => rfl

/-- Nobody is at the gate of a fleet on which no cycle is under way. -/
theorem Reachable.gate_of_quiet (hf : f.Reachable)
    (hquiet : ∀ e ∈ f.activities, e.2.cycles f.site = []) : f.world.gate = [] := by
  refine List.eq_nil_iff_forall_not_mem.mpr fun t ht ↦ ?_
  obtain ⟨e, he, rfl⟩ := hf.staffed.staffed t ht
  have hstands := hf.staffed.stands e he
  rw [stage_of_cycles (hquiet e he)] at hstands
  exact hstands ht

/-- Nobody is at the gate of a fleet at which nothing is under way. -/
theorem Reachable.gate_of_idle (hf : f.Reachable) (hidle : f.activities = []) :
    f.world.gate = [] :=
  hf.gate_of_quiet fun _ he ↦ absurd (hidle ▸ he) List.not_mem_nil

end NodeFleet.Fleet
