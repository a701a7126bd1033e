import NodeFleet.Proofs.CallTurns
/-!
Calls that fetch explicit specs. An explicit fetch enters just one turn when it succeeds, and a
creation enters one for its specs and later one for its refresh.
-/

set_option autoImplicit false
set_option relaxedAutoImplicit false

namespace NodeFleet.Fleet

open NodeFleet.Discovery NodeFleet.Quota

namespace Turn

def Fetched (x : Turn) (specs : List ExplicitSpec) : Prop :=
  x.brief.cycle = .explicit specs ∧ x.result = .ok ()

def HasDiscovered (x : Turn) : Prop :=
  x.brief.cycle = .auto ∧ x.result = .ok ()

end Turn

namespace Operation

/-- The specs that an operation fetches explicitly. -/
def fetched? (site : Site) : Operation → Option (List ExplicitSpec)
  | fetchExplicit texts => (ExplicitSpec.parseAll texts).toOption
  | create => some site.explicitSpecs
  | _ => none

/-- The turns of a call that has fetched specs with success. -/
inductive HasFetched (specs : List ExplicitSpec) : Operation → List Turn → Prop
  | fetch (texts : List String) {x : Turn} (hx : x.Fetched specs) :
      HasFetched specs (fetchExplicit texts) [x]
  | create {x y : Turn} (hx : x.Fetched specs) (hy : y.HasDiscovered) :
      HasFetched specs create [x, y]

variable {site : Site} {o : Operation} {specs : List ExplicitSpec} {texts : List String}

theorem fetched?_cases (h : o.fetched? site = some specs) :
    (∃ texts, o = fetchExplicit texts ∧ ExplicitSpec.parseAll texts = .ok specs) ∨
      o = create ∧ specs = site.explicitSpecs := by
  cases o with
  | fetchExplicit texts =>
    refine Or.inl ⟨texts, rfl, ?_⟩
    change (ExplicitSpec.parseAll texts).toOption = some specs at h
    cases hparse : ExplicitSpec.parseAll texts with
    | error e =>
      rw [hparse] at h
      cases h
    | ok parsed =>
      rw [hparse] at h
      exact congrArg Except.ok (Option.some.inj h)
  | create => exact Or.inr ⟨rfl, (Option.some.inj h).symm⟩
  | _ => cases h

/-- An explicit cycle of an operation is for the specs that it fetches. -/
theorem fetched?_of_mem_cycles (h : .explicit specs ∈ o.cycles site) :
    o.fetched? site = some specs := by
  cases o with
  | fetchExplicit texts =>
    dsimp only [cycles] at h
    show (ExplicitSpec.parseAll texts).toOption = some specs
    cases hparse : ExplicitSpec.parseAll texts with
    | error e =>
      rw [hparse] at h
      cases h
    | ok parsed =>
      rw [hparse] at h
      obtain rfl := Cycle.explicit.inj (List.mem_singleton.mp h)
      rfl
  | create =>
    rcases List.mem_cons.mp h with h | h
    · exact congrArg some (Cycle.explicit.inj h).symm
    · simp at h
  | _ => simp [cycles] at h

/-- A cycle of an explicit fetch is for its well-formed specs. -/
theorem parseAll_of_cycles {cycle : Cycle} (h : (fetchExplicit texts).cycles site = [cycle]) :
    ∃ specs, ExplicitSpec.parseAll texts = .ok specs ∧ cycle = .explicit specs := by
  dsimp only [cycles] at h
  cases hparse : ExplicitSpec.parseAll texts with
  | error e =>
    rw [hparse] at h
    cases h
  | ok specs =>
    rw [hparse] at h
    exact ⟨specs, rfl, (List.cons.inj h).1.symm⟩

/-- What a call that fetches specs is done with. -/
theorem EndsWith.hasFetched {turns : List Turn} (h : o.EndsWith site .done turns)
    (hspecs : o.fetched? site = some specs) : o.HasFetched specs turns := by
  cases h with
  | done hsome h =>
    rcases fetched?_cases hspecs with ⟨texts, rfl, hparse⟩ | ⟨rfl, rfl⟩
    · dsimp only [cycles] at h
      rw [hparse] at h
      cases h with
      | cons hx hrest =>
        cases hrest
        exact .fetch texts hx
    · cases h with
      | cons hx hrest =>
        cases hrest with
        | cons hy hnone =>
          cases hnone
          exact .create hx hy

end Operation

variable {α : Type} [Balance α] (site : Site) (cloud : Cloud) (files : Files)
  (quotas : Option (Quotas α)) {events before : List Event} {t : Ticket} {o : Operation}
  {specs : List ExplicitSpec}

theorem hasFetched_after (he : ∀ e ∈ events, e.Orderly) (ho : (begun events)[t]? = some o)
    (hspecs : o.fetched? site = some specs) (hbefore : before <+: events)
    (hdone : ((fresh site cloud files quotas).after before).outcome? t = some .done) :
    o.HasFetched specs
      (((fresh site cloud files quotas).after before).world.journal.turnsOf t) := by
  obtain ⟨hd, hearly⟩ : o.Discovers ∧ o ≠ .refresh := by
    rcases Operation.fetched?_cases hspecs with ⟨texts, rfl, -⟩ | ⟨rfl, -⟩
    · exact ⟨Or.inl trivial, by rintro ⟨⟩⟩
    · exact ⟨Or.inr rfl, by rintro ⟨⟩⟩
  rw [← begun_of_outcome? site cloud files quotas hbefore hdone] at ho
  exact (endsWith_of_done site cloud files quotas (fun e h ↦ he e (hbefore.subset h)) ho hd hearly
    hdone).hasFetched hspecs

/-- The step by which an explicit fetch is done enters the turn of its specs and no other. -/
theorem fetched_of_done {e : Event} {texts : List String} (he : ∀ x ∈ events ++ [e], x.Orderly)
    (ho : (begun (events ++ [e]))[t]? = some (.fetchExplicit texts))
    (hnone : ((fresh site cloud files quotas).after events).outcome? t = none)
    (hdone : ((fresh site cloud files quotas).after (events ++ [e])).outcome? t = some .done) :
    ∃ specs x, ExplicitSpec.parseAll texts = .ok specs ∧
      ((fresh site cloud files quotas).after (events ++ [e])).world.journal.turns =
        ((fresh site cloud files quotas).after events).world.journal.turns ++ [x] ∧
      x.brief.ticket = t ∧ x.Fetched specs := by
  obtain ⟨x, hturns, hticket, hcycle, hresult⟩ :=
    turn_of_done site cloud files quotas he ho trivial (by rintro ⟨⟩) hnone hdone
  obtain ⟨specs, hspecs, hexplicit⟩ := Operation.parseAll_of_cycles hcycle
  exact ⟨specs, x, hspecs, hturns, hticket, hexplicit, hresult⟩

end NodeFleet.Fleet
