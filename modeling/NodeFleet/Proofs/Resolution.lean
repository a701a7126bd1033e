import Mathlib.Data.List.Induction
import Mathlib.Tactic.SplitIfs
import NodeFleet.Quota.Settings
/-!
The resolution of rate limits. Four settings of the top level are looked for in the environment, one
after the other; what stands in their way is a variable that cannot be read, and the first one ends
the resolution with the settings before it filled. When none does, every setting has its own value
or that of the next source, and every category has settings.
-/

set_option autoImplicit false
set_option relaxedAutoImplicit false

namespace NodeFleet.Quota

open NodeFleet.Number

/-- What a variable says; an empty one says nothing. -/
def Environment.text? (env : Environment) (variableName : String) : Option String :=
  (env variableName).filter (· ≠ "")

/-- The settings that are looked for in the environment. -/
inductive Setting
  | qps
  | bucket
  | qpsWrite
  | bucketWrite
  deriving DecidableEq, Repr

namespace Setting

/-- In the order in which they are looked for. -/
def all : List Setting := [qps, bucket, qpsWrite, bucketWrite]

theorem mem_all (x : Setting) : x ∈ all := by
  cases x <;> decide

abbrev Value : Setting → Type
  | qps => Single
  | bucket => UInt32
  | qpsWrite => Single
  | bucketWrite => UInt32

def variableName : Setting → String
  | qps => readQpsVariable
  | bucket => readBucketsVariable
  | qpsWrite => writeQpsVariable
  | bucketWrite => writeBucketsVariable

def read : (x : Setting) → String → Except NumberFault x.Value
  | qps => readRate
  | bucket => readBurst
  | qpsWrite => readRate
  | bucketWrite => readBurst

def of (s : Settings) : (x : Setting) → x.Value
  | qps => s.qps
  | bucket => s.bucket
  | qpsWrite => s.qpsWrite
  | bucketWrite => s.bucketWrite

def set (s : Settings) : (x : Setting) → x.Value → Settings
  | qps, v => { s with qps := v }
  | bucket, v => { s with bucket := v }
  | qpsWrite, v => { s with qpsWrite := v }
  | bucketWrite, v => { s with bucketWrite := v }

/-- Whether a value stands for a setting that was left out: a rate does that is either
of the zeros. -/
def Unset : (x : Setting) → x.Value → Prop
  | qps, v => v = .zero ∨ v = Binary.zero.neg
  | bucket, v => v = 0
  | qpsWrite, v => v = .zero ∨ v = Binary.zero.neg
  | bucketWrite, v => v = 0

instance (x : Setting) (v : x.Value) : Decidable (x.Unset v) :=
  match x, v with
  | qps, _ => inferInstanceAs (Decidable (_ ∨ _))
  | bucket, _ => inferInstanceAs (Decidable (_ = _))
  | qpsWrite, _ => inferInstanceAs (Decidable (_ ∨ _))
  | bucketWrite, _ => inferInstanceAs (Decidable (_ = _))

example : Unset qps ⟨true, 0⟩ ∧ ¬ Unset qps .nan := by decide

/-- What a setting is that neither its own value nor its variable gives. -/
def fallback (s : Settings) : (x : Setting) → x.Value
  | qps => defaultQps
  | bucket => defaultBucket
  | qpsWrite => s.qps
  | bucketWrite => s.bucket

/-- The value that a variable gives, if it says something that can be read. -/
def value? (env : Environment) (x : Setting) : Option x.Value :=
  (env.text? x.variableName).bind fun text ↦ (x.read text).toOption

/-- What a setting of `s` is resolved to among the settings `top`. -/
def resolved (env : Environment) (s top : Settings) (x : Setting) : x.Value :=
  if x.Unset (x.of s) then (x.value? env).getD (x.fallback top) else x.of s

/-- Whether the variable of a setting says what cannot be read. -/
def Malformed (env : Environment) (x : Setting) (text : String) (fault : NumberFault) : Prop :=
  env.text? x.variableName = some text ∧ x.read text = .error fault

/-- Whether a setting is left out while its variable cannot be read. -/
def Faulty (env : Environment) (s : Settings) (x : Setting) : Prop :=
  x.Unset (x.of s) ∧ ∃ text fault, x.Malformed env text fault

/-! ### Settings one by one -/

theorem isZero_iff {f : Format} (v : Binary f) :
    v.isZero = true ↔ v = .zero ∨ v = Binary.zero.neg := by
  rcases v with ⟨_ | _, pattern⟩ <;> simp [Binary.isZero, Binary.zero, Binary.neg]

variable {env : Environment} {s t : Settings} {x y : Setting}

@[simp] theorem of_set (s : Settings) (x : Setting) (v : x.Value) : x.of (x.set s v) = v := by
  cases x <;> rfl

theorem of_set_of_ne (h : y ≠ x) (s : Settings) (v : x.Value) : y.of (x.set s v) = y.of s := by
  cases x <;> cases y <;> first | rfl | exact absurd rfl h

@[simp] theorem set_of (s : Settings) (x : Setting) : x.set s (x.of s) = s := by
  cases x <;> rfl

@[simp] theorem enabled_set (s : Settings) (x : Setting) (v : x.Value) :
    (x.set s v).enabled = s.enabled := by
  cases x <;> rfl

/-- Only what was left out can be resolved to a zero. -/
theorem unset_of_resolved {top : Settings} (h : x.Unset (x.resolved env s top)) :
    x.Unset (x.of s) := by
  unfold resolved at h
  split_ifs at h with hunset
  · exact hunset
  · exact h

theorem eq_of_of_eq (henabled : s.enabled = t.enabled) (h : ∀ x : Setting, x.of s = x.of t) :
    s = t := by
  rcases s with ⟨enabled, a, b, c, d⟩
  rcases t with ⟨enabled', a', b', c', d'⟩
  obtain rfl : enabled = enabled' := henabled
  obtain rfl : a = a' := h qps
  obtain rfl : b = b' := h bucket
  obtain rfl : c = c' := h qpsWrite
  obtain rfl : d = d' := h bucketWrite
  rfl

/-- No setting falls back on one that is looked for later. -/
theorem pairwise_fallback :
    all.Pairwise fun y x ↦ ∀ (s : Settings) (v : x.Value),
      y.fallback (x.set s v) = y.fallback s := by
  simp [all, fallback, set]

theorem fallback_set {before after : List Setting} (hall : all = before ++ x :: after)
    (hy : y ∈ before) (s : Settings) (v : x.Value) :
    y.fallback (x.set s v) = y.fallback s := by
  have hpairs := pairwise_fallback
  rw [hall] at hpairs
  exact (List.pairwise_append.mp hpairs).2.2 y hy x List.mem_cons_self s v

@[simp] theorem fallback_self (x : Setting) (s : Settings) (v : x.Value) :
    x.fallback (x.set s v) = x.fallback s := by
  cases x <;> rfl

theorem ne_of_before {before after : List Setting} (hall : all = before ++ x :: after)
    (hy : y ∈ before) : y ≠ x := by
  have hnodup : all.Nodup := by decide
  rw [hall] at hnodup
  exact (List.pairwise_append.mp hnodup).2.2 y hy x List.mem_cons_self

end Setting

/-! ### Steps -/

namespace Settings

/-- The step that fills one setting. -/
def fillSetting (env : Environment) : Setting → Settings → Except Error Settings
  | .qps => fillQps env
  | .bucket => fillBucket env
  | .qpsWrite => fillQpsWrite env
  | .bucketWrite => fillBucketWrite env

theorem fill_eq (env : Environment) (s : Settings) :
    s.fill env = s.fillWith (Setting.all.map (fillSetting env)) := rfl

variable {env : Environment} {s t : Settings} {x : Setting}

theorem given?_eq {α : Type} (env : Environment) (read : String → Except NumberFault α)
    (variableName : String) :
    given? env read variableName =
      match env.text? variableName with
      | none => .ok none
      | some text =>
        ((read text).mapError (.invalidRateLimitValue variableName text)).map some := by
  unfold given? Environment.text?
  cases env variableName with
  | none => rfl
  | some text =>
    by_cases hempty : text = ""
    · obtain rfl := hempty
      rfl
    · rw [Option.filter_some, if_pos (by simpa using hempty)]
      dsimp only
      rw [if_neg hempty]
      cases read text <;> rfl

/-- Every step does the same to the setting that it fills. -/
theorem fillSetting_eq (env : Environment) (x : Setting) (s : Settings) :
    fillSetting env x s =
      if x.Unset (x.of s) then
        (given? env x.read x.variableName).map fun v ↦ x.set s (v.getD (x.fallback s))
      else .ok s := by
  cases x <;> simp only [fillSetting, fillQps, fillBucket, fillQpsWrite, fillBucketWrite,
    Setting.isZero_iff] <;> rfl

/-- A step that succeeds sets its setting to what that is resolved to by then. -/
theorem fillSetting_eq_ok_iff :
    fillSetting env x s = .ok t ↔
      ¬ x.Faulty env s ∧ t = x.set s (x.resolved env s s) := by
  rw [fillSetting_eq, given?_eq]
  unfold Setting.Faulty Setting.resolved Setting.value? Setting.Malformed
  by_cases hunset : x.Unset (x.of s)
  · rw [if_pos hunset, if_pos hunset]
    cases htext : env.text? x.variableName with
    | none => simp [Except.map, eq_comm]
    | some text =>
      cases hread : x.read text with
      | error fault => simp [hunset, hread, Except.map, Except.mapError]
      | ok v => simp [hread, Except.map, Except.mapError, Except.toOption, eq_comm]
  · rw [if_neg hunset, if_neg hunset, Setting.set_of]
    simp [hunset, eq_comm]

theorem fillSetting_eq_error_iff {e : Error} :
    fillSetting env x s = .error e ↔
      x.Unset (x.of s) ∧ ∃ text fault, x.Malformed env text fault ∧
        e = .invalidRateLimitValue x.variableName text fault := by
  rw [fillSetting_eq, given?_eq]
  unfold Setting.Malformed
  by_cases hunset : x.Unset (x.of s)
  · rw [if_pos hunset]
    cases htext : env.text? x.variableName with
    | none => simp [Except.map]
    | some text =>
      dsimp only
      cases hread : x.read text with
      | error fault =>
        constructor
        · intro h
          exact ⟨hunset, text, fault, ⟨rfl, hread⟩, (Except.error.inj h).symm⟩
        · rintro ⟨-, said, fault', ⟨hsaid, hfault⟩, rfl⟩
          obtain rfl := Option.some.inj hsaid
          obtain rfl := Except.error.inj (hread.symm.trans hfault)
          rfl
      | ok v =>
        refine iff_of_false (fun h ↦ by cases h) ?_
        rintro ⟨-, said, fault, ⟨hsaid, hfault⟩, -⟩
        obtain rfl := Option.some.inj hsaid
        rw [hread] at hfault
        cases hfault
  · rw [if_neg hunset]
    simp [hunset]

/-! ### Runs of steps -/

theorem fillWith_cons (s : Settings) (step : Settings → Except Error Settings)
    (rest : List (Settings → Except Error Settings)) :
    s.fillWith (step :: rest) =
      match step s with
      | .ok next => next.fillWith rest
      | .error e => (s, some e) := rfl

theorem fillWith_append (s : Settings) (first second : List (Settings → Except Error Settings)) :
    s.fillWith (first ++ second) =
      match s.fillWith first with
      | (t, none) => t.fillWith second
      | (t, some e) => (t, some e) := by
  induction first generalizing s with
  | nil => rfl
  | cons step rest ih =>
    rw [List.cons_append, fillWith_cons, fillWith_cons]
    cases step s with
    | error e => rfl
    | ok t => exact ih t

/-- A run fails by the first step that fails, on what the steps before it have done. -/
theorem fillWith_eq_error {steps : List (Settings → Except Error Settings)} {e : Error}
    (h : s.fillWith steps = (t, some e)) :
    ∃ before step after, steps = before ++ step :: after ∧ s.fillWith before = (t, none) ∧
      step t = .error e := by
  induction steps generalizing s with
  | nil => cases h
  | cons step rest ih =>
    rw [fillWith_cons] at h
    cases hstep : step s with
    | error cause =>
      rw [hstep] at h
      obtain ⟨rfl, hcause⟩ := Prod.mk.inj h
      obtain rfl := Option.some.inj hcause
      exact ⟨[], step, rest, rfl, rfl, hstep⟩
    | ok next =>
      rw [hstep] at h
      obtain ⟨before, failing, after, rfl, hbefore, hfails⟩ := ih h
      refine ⟨step :: before, failing, after, rfl, ?_, hfails⟩
      rw [fillWith_cons, hstep]
      exact hbefore

/-- What has become of the settings `s` once those of a list have been filled. -/
structure Filled (env : Environment) (s : Settings) (filled : List Setting) (t : Settings) :
    Prop where
  enabled : t.enabled = s.enabled
  resolved : ∀ x ∈ filled, x.of t = x.resolved env s t
  kept : ∀ x ∉ filled, x.of t = x.of s
  readable : ∀ x ∈ filled, ¬ x.Faulty env s

/-- A setting that has not been filled is as faulty as it was. -/
theorem Filled.faulty_iff {filled : List Setting} (h : s.Filled env filled t) (hx : x ∉ filled) :
    x.Faulty env t ↔ x.Faulty env s := by
  unfold Setting.Faulty
  rw [h.kept x hx]

theorem Filled.step {before after : List Setting} (h : s.Filled env before t)
    (hall : Setting.all = before ++ x :: after) {next : Settings}
    (hnext : fillSetting env x t = .ok next) : s.Filled env (before ++ [x]) next := by
  have hx : x ∉ before := fun hmem ↦ Setting.ne_of_before hall hmem rfl
  obtain ⟨hreadable, rfl⟩ := fillSetting_eq_ok_iff.mp hnext
  rw [h.faulty_iff hx] at hreadable
  have hown : x.resolved env t t = x.resolved env s t := by
    unfold Setting.resolved
    rw [h.kept x hx]
  constructor
  · rw [Setting.enabled_set]
    exact h.enabled
  · intro y hy
    rcases List.mem_append.mp hy with hy | hy
    · unfold Setting.resolved
      rw [Setting.of_set_of_ne (Setting.ne_of_before hall hy), Setting.fallback_set hall hy]
      exact h.resolved y hy
    · obtain rfl := List.mem_singleton.mp hy
      rw [Setting.of_set, hown]
      unfold Setting.resolved
      rw [y.fallback_self]
  · intro y hy
    rw [List.mem_append, not_or, List.mem_singleton] at hy
    rw [Setting.of_set_of_ne hy.2]
    exact h.kept y hy.1
  · intro y hy
    rcases List.mem_append.mp hy with hy | hy
    · exact h.readable y hy
    · obtain rfl := List.mem_singleton.mp hy
      exact hreadable

theorem filled_of_fillWith {before after : List Setting} (hall : Setting.all = before ++ after)
    (h : s.fillWith (before.map (fillSetting env)) = (t, none)) : s.Filled env before t := by
  induction before using List.reverseRecOn generalizing after t with
  | nil =>
    obtain ⟨rfl, -⟩ := Prod.mk.inj h
    exact ⟨rfl, fun _ hx ↦ absurd hx List.not_mem_nil, fun _ _ ↦ rfl,
      fun _ hx ↦ absurd hx List.not_mem_nil⟩
  | append_singleton before x ih =>
    rw [List.append_assoc] at hall
    rw [List.map_append, fillWith_append] at h
    rcases hbefore : s.fillWith (before.map (fillSetting env)) with ⟨middle, _ | e⟩
    · rw [hbefore] at h
      have hstep : middle.fillWith [fillSetting env x] = (t, none) := h
      rw [fillWith_cons] at hstep
      cases hnext : fillSetting env x middle with
      | error e =>
        rw [hnext] at hstep
        cases hstep
      | ok next =>
        rw [hnext] at hstep
        obtain ⟨rfl, -⟩ := Prod.mk.inj hstep
        exact (ih hall hbefore).step hall hnext
    · rw [hbefore] at h
      cases h

/-! ### The top level -/

/-- A fill that fails has filled the settings before the first one at fault, and no other. -/
theorem fill_eq_error {e : Error} (h : s.fill env = (t, some e)) :
    ∃ before x after, Setting.all = before ++ x :: after ∧
      s.fillWith (before.map (fillSetting env)) = (t, none) ∧ fillSetting env x t = .error e := by
  rw [fill_eq] at h
  obtain ⟨steps, step, rest, hsteps, hbefore, hstep⟩ := fillWith_eq_error h
  obtain ⟨before, after, hall, rfl, hafter⟩ := List.map_eq_append_iff.mp hsteps
  obtain ⟨x, later, rfl, rfl, rfl⟩ := List.map_eq_cons_iff.mp hafter
  exact ⟨before, x, later, hall, hbefore, hstep⟩

theorem filled_of_fill (h : s.fill env = (t, none)) : s.Filled env Setting.all t :=
  filled_of_fillWith (List.append_nil _).symm h

/-- The first fault in the way of filling some settings: of which setting, and what
is said there. -/
def FirstFault (env : Environment) (s : Settings) (e : Error) : Prop :=
  ∃ before x after text fault, Setting.all = before ++ x :: after ∧
    (∀ y ∈ before, ¬ y.Faulty env s) ∧ x.Unset (x.of s) ∧ x.Malformed env text fault ∧
      e = .invalidRateLimitValue x.variableName text fault

theorem firstFault_of_fill {e : Error} (h : s.fill env = (t, some e)) : s.FirstFault env e := by
  obtain ⟨before, x, after, hall, hbefore, hstep⟩ := fill_eq_error h
  have hfilled := filled_of_fillWith hall hbefore
  obtain ⟨hunset, text, fault, hmalformed, rfl⟩ := fillSetting_eq_error_iff.mp hstep
  rw [hfilled.kept x fun hx ↦ Setting.ne_of_before hall hx rfl] at hunset
  exact ⟨before, x, after, text, fault, hall, hfilled.readable, hunset, hmalformed, rfl⟩

theorem FirstFault.faulty {e : Error} (h : s.FirstFault env e) :
    ∃ x : Setting, x.Faulty env s := by
  obtain ⟨before, x, after, text, fault, -, -, hunset, hmalformed, -⟩ := h
  exact ⟨x, hunset, text, fault, hmalformed⟩

theorem of_inherit (top s : Settings) (x : Setting) :
    x.of (top.inherit s) = if x.Unset (x.of s) then x.of top else x.of s := by
  cases x <;> simp only [Setting.of, inherit, Setting.isZero_iff] <;> rfl

end Settings

/-! ### Categories -/

namespace Limits

theorem resolve_eq (env : Environment) (l : Limits) :
    (∃ top e, l.defaults.fill env = (top, some e) ∧
      l.resolve env = ({ l with defaults := top }, some e)) ∨
    ∃ top, l.defaults.fill env = (top, none) ∧
      l.resolve env = (⟨top, fun c ↦ some ((l.overrides c).elim top top.inherit)⟩, none) := by
  unfold resolve
  rcases l.defaults.fill env with ⟨top, _ | e⟩
  · exact Or.inr ⟨top, rfl, rfl⟩
  · exact Or.inl ⟨top, e, rfl, rfl⟩

/-- What limits are once they are resolved. -/
structure Resolved (env : Environment) (l l' : Limits) : Prop where
  enabled : l'.defaults.enabled = l.defaults.enabled
  /-- A setting of the top level has its own value, or else that of its variable, or else what it
  falls back on. -/
  top : ∀ x : Setting, x.of l'.defaults =
    if x.Unset (x.of l.defaults) then (x.value? env).getD (x.fallback l'.defaults)
    else x.of l.defaults
  absent : ∀ c, l.overrides c = none → l'.overrides c = some l'.defaults
  present : ∀ c own, l.overrides c = some own → ∃ s, l'.overrides c = some s ∧
    s.enabled = own.enabled ∧
      ∀ x : Setting, x.of s = if x.Unset (x.of own) then x.of l'.defaults else x.of own

theorem resolved_of_resolve {env : Environment} {l l' : Limits} (h : l.resolve env = (l', none)) :
    Resolved env l l' := by
  rcases l.resolve_eq env with ⟨top, e, -, hresolve⟩ | ⟨top, hfill, hresolve⟩
  · rw [hresolve] at h
    cases h
  · obtain ⟨rfl, -⟩ := Prod.mk.inj (hresolve.symm.trans h)
    have hfilled := Settings.filled_of_fill hfill
    refine ⟨hfilled.enabled, fun x ↦ hfilled.resolved x x.mem_all, ?_, ?_⟩
    · intro c hc
      dsimp only
      rw [hc]
      rfl
    · intro c own hc
      dsimp only
      rw [hc]
      exact ⟨_, rfl, rfl, top.of_inherit own⟩

/-- A resolution fails just when a setting is left out whose variable cannot be read, and by the
first of those; otherwise all settings are resolved. -/
theorem resolution (env : Environment) (l : Limits) :
    ((∃ e, (l.resolve env).2 = some e) ↔ ∃ x : Setting, x.Faulty env l.defaults) ∧
      (∀ e, (l.resolve env).2 = some e → l.defaults.FirstFault env e) ∧
        ((l.resolve env).2 = none → Resolved env l (l.resolve env).1) := by
  have hfirst : ∀ e, (l.resolve env).2 = some e → l.defaults.FirstFault env e := by
    intro e he
    rcases l.resolve_eq env with ⟨top, cause, hfill, hresolve⟩ | ⟨top, -, hresolve⟩
    · rw [hresolve] at he
      obtain rfl := Option.some.inj he
      exact Settings.firstFault_of_fill hfill
    · rw [hresolve] at he
      cases he
  refine ⟨⟨fun ⟨e, he⟩ ↦ (hfirst e he).faulty, ?_⟩, hfirst,
    fun h ↦ resolved_of_resolve (Prod.ext rfl h)⟩
  rintro ⟨x, hx⟩
  rcases l.resolve_eq env with ⟨top, cause, -, hresolve⟩ | ⟨top, hfill, -⟩
  · rw [hresolve]
    exact ⟨cause, rfl⟩
  · exact absurd hx ((Settings.filled_of_fill hfill).readable x x.mem_all)

end Limits

end NodeFleet.Quota
