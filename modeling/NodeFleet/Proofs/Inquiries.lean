import NodeFleet.Proofs.Serial
import NodeFleet.Proofs.Strides
/-!
What inquiries leave behind: calls counted, tokens taken and sizes written down, but neither the
registry nor the answers that the cloud gives are touched. An inquiry that comes to its end tells
what the cloud answers at that moment, or that its deadline has passed.
-/

set_option autoImplicit false
set_option relaxedAutoImplicit false

namespace NodeFleet.Fleet

open NodeFleet.Discovery NodeFleet.Quota

variable {α : Type}

namespace World

/-- Worlds that differ at most in calls, tokens and the sizes of groups. -/
def Inquired (w w' : World α) : Prop :=
  (∃ cloud quotas cells, w' = { w with cloud, quotas, cells }) ∧
    ∀ resourceGroup q, w'.answer resourceGroup q = w.answer resourceGroup q

/-- What an inquiry tells that ends now. -/
def Tells (w : World α) (site : Site) (q : Query) (r : Except Error q.Answer) : Prop :=
  r = (w.answer site.resourceGroup q).mapError (.queryFailed q site.resourceGroup) ∨
    r = .error (.deadlineExceeded q site.inventoryTimeout)

theorem Tells.of_answers {w w' : World α}
    (h : ∀ resourceGroup q, w'.answer resourceGroup q = w.answer resourceGroup q) {site : Site}
    {q : Query} {r : Except Error q.Answer} (hr : w'.Tells site q r) : w.Tells site q r := by
  unfold Tells at *
  rw [← h]
  exact hr

namespace Inquired

variable {w w' w'' : World α}

theorem refl (w : World α) : Inquired w w :=
  ⟨⟨w.cloud, w.quotas, w.cells, rfl⟩, fun _ _ ↦ rfl⟩

theorem trans (h : Inquired w w') (h' : Inquired w' w'') : Inquired w w'' := by
  obtain ⟨⟨cloud, quotas, cells, rfl⟩, hanswer⟩ := h
  obtain ⟨⟨cloud', quotas', cells', rfl⟩, hanswer'⟩ := h'
  refine ⟨⟨cloud', quotas', cells', rfl⟩, ?_⟩
  intro resourceGroup q
  rw [hanswer', hanswer]

theorem registry (h : Inquired w w') : w'.registry = w.registry := by
  obtain ⟨⟨cloud, quotas, cells, rfl⟩, -⟩ := h
  rfl

theorem pinned (h : Inquired w w') : w'.pinned = w.pinned := by
  obtain ⟨⟨cloud, quotas, cells, rfl⟩, -⟩ := h
  rfl

theorem refreshedAt (h : Inquired w w') : w'.refreshedAt = w.refreshedAt := by
  obtain ⟨⟨cloud, quotas, cells, rfl⟩, -⟩ := h
  rfl

theorem line (h : Inquired w w') : w'.line = w.line := by
  obtain ⟨⟨cloud, quotas, cells, rfl⟩, -⟩ := h
  rfl

theorem gate (h : Inquired w w') : w'.gate = w.gate := by
  obtain ⟨⟨cloud, quotas, cells, rfl⟩, -⟩ := h
  rfl

theorem journal (h : Inquired w w') : w'.journal = w.journal := by
  obtain ⟨⟨cloud, quotas, cells, rfl⟩, -⟩ := h
  rfl

theorem tells (h : Inquired w w') {site : Site} {q : Query} {r : Except Error q.Answer}
    (hr : w'.Tells site q r) : w.Tells site q r :=
  hr.of_answers h.2

end Inquired

theorem inquired_cells (w : World α) (cells : Array SizeCell) :
    Inquired w { w with cells } :=
  ⟨⟨w.cloud, w.quotas, cells, rfl⟩, fun _ _ ↦ rfl⟩

/-! ### Calls -/

theorem inquired_draw [Balance α] (w : World α) (q : Query) : Inquired w (w.draw q).1 := by
  unfold draw
  cases hq : w.quotas with
  | none => exact .refl w
  | some quotas => exact ⟨⟨w.cloud, _, w.cells, rfl⟩, fun _ _ ↦ rfl⟩

theorem inquired_ask (w : World α) (q : Query) : Inquired w (w.ask q).1 := by
  unfold ask
  split
  · rename_i a hcloud
    refine ⟨⟨_, w.quotas, w.cells, rfl⟩, ?_⟩
    intro resourceGroup q'
    simp only [answer, hcloud]
    rfl
  · exact .refl w

theorem world_collect (w : World α) (resourceGroup : String) (q : Query) (due : Nat) :
    (w.collect resourceGroup q due).1 = w := by
  unfold collect
  split_ifs <;> rfl

theorem answer_of_collect {w : World α} {resourceGroup : String} {q : Query} {due : Nat}
    {r : Except CloudError q.Answer} (h : (w.collect resourceGroup q due).2 = .finished r) :
    r = w.answer resourceGroup q := by
  unfold collect at h
  split_ifs at h
  exact (Progress.finished.inj h).symm

variable [Balance α] (w : World α)

theorem inquired_attempt (resourceGroup : String) (q : Query) :
    Inquired w (w.attempt resourceGroup q).1 := by
  have hdraw := w.inquired_draw q
  unfold attempt
  rcases hw : w.draw q with ⟨w', _ | wake⟩
  · rw [hw] at hdraw
    dsimp only
    rw [world_collect]
    exact hdraw.trans (w'.inquired_ask q)
  · rw [hw] at hdraw
    exact hdraw

/-- An attempt changes nothing but the calls and the tokens. -/
theorem attempt_eq (resourceGroup : String) (q : Query) :
    ∃ cloud quotas, (w.attempt resourceGroup q).1 = { w with cloud, quotas } := by
  have hdraw : ∃ quotas, (w.draw q).1 = { w with quotas } := by
    unfold draw
    cases hquotas : w.quotas with
    | none => exact ⟨w.quotas, rfl⟩
    | some quotas => exact ⟨_, rfl⟩
  obtain ⟨quotas, hdrawn⟩ := hdraw
  unfold attempt
  rcases hw : w.draw q with ⟨w', _ | wake⟩
  · rw [hw] at hdrawn
    obtain rfl : w' = { w with quotas } := hdrawn
    dsimp only
    rw [world_collect]
    unfold ask
    split
    · exact ⟨_, _, rfl⟩
    · exact ⟨_, _, rfl⟩
  · rw [hw] at hdrawn
    exact ⟨_, _, hdrawn⟩

theorem asking_inquired : Asking (Inquired (α := α)) where
  refl := .refl
  trans := .trans
  attempt := inquired_attempt
  newGroup w _ _ := w.inquired_cells _

omit w in
/-- What is kept when calls are counted, tokens are taken and handles are made is
kept by inquiries. -/
theorem asking_of_kept {P : World α → Prop}
    (hcalls : ∀ {w} cloud quotas, P w → P { w with cloud, quotas })
    (hcells : ∀ {w}, P w → P { w with cells := w.cells.push .empty }) :
    Asking fun w w' ↦ P w → P w' where
  refl _ h := h
  trans h h' hw := h' (h hw)
  attempt w resourceGroup q h := by
    obtain ⟨cloud, quotas, heq⟩ := w.attempt_eq resourceGroup q
    rw [heq]
    exact hcalls cloud quotas h
  newGroup _ _ _ h := hcells h

theorem answer_of_attempt {w : World α} {resourceGroup : String} {q : Query}
    {r : Except CloudError q.Answer} (h : (w.attempt resourceGroup q).2 = .finished r) :
    r = w.answer resourceGroup q := by
  have hdraw := w.inquired_draw q
  unfold attempt at h
  rcases hw : w.draw q with ⟨w', _ | wake⟩
  · rw [hw] at h hdraw
    exact (answer_of_collect h).trans
      (((w'.inquired_ask q).2 resourceGroup q).trans (hdraw.2 resourceGroup q))
  · rw [hw] at h
    simp at h

/-- A call that ends gets the answer of that moment. -/
theorem answer_of_pollCall {w : World α} {resourceGroup : String} {q : Query} {phase : CallPhase}
    {r : Except CloudError q.Answer} (h : (w.pollCall resourceGroup q phase).2 = .finished r) :
    r = w.answer resourceGroup q := by
  cases phase with
  | fresh => exact answer_of_attempt h
  | throttled wake =>
    dsimp only [pollCall] at h
    split_ifs at h
    exact answer_of_attempt h
  | underWay due => exact answer_of_collect h

/-! ### Inquiries -/

/-- An inquiry that ends tells the answer of that moment, or that its deadline has passed. -/
theorem tells_pollInquiry {w : World α} {site : Site} {q : Query} {i : Inquiry}
    {r : Except Error q.Answer} (h : (w.pollInquiry site q i).2 = .finished r) :
    w.Tells site q r := by
  unfold pollInquiry at h
  rcases hcall : w.pollCall site.resourceGroup q i.phase with ⟨w', phase | e | a⟩
  · rw [hcall] at h
    dsimp only at h
    split_ifs at h
    exact Or.inr (Progress.finished.inj h).symm
  · have hanswer := answer_of_pollCall (congrArg Prod.snd hcall)
    rw [hcall] at h
    refine Or.inl ?_
    rw [← hanswer]
    exact (Progress.finished.inj h).symm
  · have hanswer := answer_of_pollCall (congrArg Prod.snd hcall)
    rw [hcall] at h
    refine Or.inl ?_
    rw [← hanswer]
    exact (Progress.finished.inj h).symm

end World

end NodeFleet.Fleet
