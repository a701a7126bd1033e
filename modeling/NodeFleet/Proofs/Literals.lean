import Mathlib.Data.List.Basic
import NodeFleet.Number.Integer
/-!
Decimal literals. Reading accepts just the literals whose number is within the bounds; of any other
text it reports what shows first from the left, a character that is no digit or digits that already
make a number out of bounds. A number as it is written is a literal of it.
-/

set_option autoImplicit false
set_option relaxedAutoImplicit false

namespace NodeFleet.Number

/-! ### Digits -/

/-- The number of the digits after those of `n`. -/
def digitsValue (n : Nat) (digits : List Char) : Nat :=
  digits.foldl (fun n c ↦ n * 10 + digitValue c) n

def AreDigits (s : List Char) : Prop :=
  ∀ c ∈ s, c.isDigit = true

/-- How text after the digits of `n` comes to no number up to `bound`, by what shows first. -/
inductive Spoiled (bound : Nat) (outside : IntegerFault) (n : Nat) :
    List Char → IntegerFault → Prop
  | stray {digits rest : List Char} {c : Char} : AreDigits digits →
      digitsValue n digits ≤ bound → c.isDigit = false →
        Spoiled bound outside n (digits ++ c :: rest) .invalidDigit
  | beyond {digits rest : List Char} : AreDigits digits → bound < digitsValue n digits →
      Spoiled bound outside n (digits ++ rest) outside

variable {bound n : Nat} {outside fault : IntegerFault} {c : Char} {s : List Char}

theorem areDigits_cons : AreDigits (c :: s) ↔ c.isDigit = true ∧ AreDigits s :=
  List.forall_mem_cons

theorem digitsValue_cons (n : Nat) (c : Char) (s : List Char) :
    digitsValue n (c :: s) = digitsValue (n * 10 + digitValue c) s :=
  List.foldl_cons ..

theorem le_digitsValue (n : Nat) (s : List Char) : n ≤ digitsValue n s := by
  induction s generalizing n with
  | nil => exact Nat.le_refl n
  | cons c rest ih =>
    have hrest := ih (n * 10 + digitValue c)
    rw [digitsValue_cons]
    omega

theorem Spoiled.ne_nil (h : Spoiled bound outside n s fault) (hn : n ≤ bound) : s ≠ [] := by
  cases h with
  | stray => simp
  | beyond hdigits hvalue =>
    intro hnil
    obtain ⟨rfl, -⟩ := List.append_eq_nil_iff.mp hnil
    exact Nat.not_lt_of_le hn hvalue

theorem spoiled_cons_digit (hc : c.isDigit = true) (hn : n ≤ bound) :
    Spoiled bound outside n (c :: s) fault ↔
      Spoiled bound outside (n * 10 + digitValue c) s fault := by
  generalize hs : c :: s = text
  constructor
  · intro h
    cases h with
    | @stray digits rest c' hdigits hvalue hc' =>
      cases digits with
      | nil =>
        obtain ⟨rfl, rfl⟩ := List.cons.inj hs
        simp [hc] at hc'
      | cons first digits =>
        obtain ⟨rfl, rfl⟩ := List.cons.inj hs
        rw [digitsValue_cons] at hvalue
        exact .stray (areDigits_cons.mp hdigits).2 hvalue hc'
    | @beyond digits rest hdigits hvalue =>
      cases digits with
      | nil => exact absurd hvalue (Nat.not_lt_of_le hn)
      | cons first digits =>
        obtain ⟨rfl, rfl⟩ := List.cons.inj hs
        rw [digitsValue_cons] at hvalue
        exact .beyond (areDigits_cons.mp hdigits).2 hvalue
  · intro h
    obtain rfl := hs
    cases h with
    | @stray digits rest c' hdigits hvalue hc' =>
      rw [← digitsValue_cons] at hvalue
      exact .stray (areDigits_cons.mpr ⟨hc, hdigits⟩) hvalue hc'
    | @beyond digits rest hdigits hvalue =>
      rw [← digitsValue_cons] at hvalue
      exact .beyond (areDigits_cons.mpr ⟨hc, hdigits⟩) hvalue

/-- Once a number is out of bounds, nothing that follows makes a difference. -/
theorem spoiled_of_lt (hn : bound < n) (s : List Char) :
    Spoiled bound outside n s fault ↔ fault = outside := by
  constructor
  · intro h
    cases h with
    | stray hdigits hvalue =>
      exact absurd (Nat.le_trans (le_digitsValue n _) hvalue) (Nat.not_le_of_lt hn)
    | beyond => rfl
  · rintro rfl
    have hnone : AreDigits [] := fun c hc ↦ absurd hc List.not_mem_nil
    exact .beyond hnone hn

theorem spoiled_cons_stray (hc : ¬ c.isDigit = true) (hn : n ≤ bound) :
    Spoiled bound outside n (c :: s) fault ↔ fault = .invalidDigit := by
  generalize hs : c :: s = text
  constructor
  · intro h
    cases h with
    | stray => rfl
    | @beyond digits rest hdigits hvalue =>
      cases digits with
      | nil => exact absurd hvalue (Nat.not_lt_of_le hn)
      | cons first digits =>
        obtain ⟨rfl, rfl⟩ := List.cons.inj hs
        exact absurd (areDigits_cons.mp hdigits).1 hc
  · rintro rfl
    obtain rfl := hs
    have hnone : AreDigits [] := fun c hc ↦ absurd hc List.not_mem_nil
    exact .stray hnone hn (by simpa using hc)

theorem readDigits_eq_ok_iff (hn : n ≤ bound) {value : Nat} :
    readDigits bound outside n s = .ok value ↔
      AreDigits s ∧ value = digitsValue n s ∧ value ≤ bound := by
  induction s generalizing n with
  | nil =>
    simp only [readDigits, Except.ok.injEq, AreDigits, digitsValue, List.foldl_nil,
      List.not_mem_nil, false_implies, implies_true, true_and]
    omega
  | cons c rest ih =>
    unfold readDigits
    dsimp only
    rw [areDigits_cons, digitsValue_cons]
    by_cases hc : c.isDigit = true
    · by_cases hnext : n * 10 + digitValue c ≤ bound
      · simp [hc, hnext, ih hnext]
      · have hle := le_digitsValue (n * 10 + digitValue c) rest
        simp only [hc, hnext, if_true, if_false, reduceCtorEq, false_iff]
        omega
    · simp [hc]

theorem readDigits_eq_error_iff (hn : n ≤ bound) :
    readDigits bound outside n s = .error fault ↔ Spoiled bound outside n s fault := by
  induction s generalizing n with
  | nil =>
    refine ⟨fun h ↦ by simp [readDigits] at h, fun h ↦ absurd rfl (h.ne_nil hn)⟩
  | cons c rest ih =>
    unfold readDigits
    dsimp only
    by_cases hc : c.isDigit = true
    · rw [if_pos hc, spoiled_cons_digit hc hn]
      by_cases hnext : n * 10 + digitValue c ≤ bound
      · rw [if_pos hnext, ih hnext]
      · rw [if_neg hnext, spoiled_of_lt (Nat.lt_of_not_le hnext), Except.error.injEq, eq_comm]
    · rw [if_neg hc, spoiled_cons_stray hc hn, Except.error.injEq, eq_comm]

/-! ### Signed literals -/

/-- An optional sign and at least one digit. -/
inductive IntLiteral : List Char → Int → Prop
  | plain {digits : List Char} : digits ≠ [] → AreDigits digits →
      IntLiteral digits (digitsValue 0 digits)
  | plus {digits : List Char} : digits ≠ [] → AreDigits digits →
      IntLiteral ('+' :: digits) (digitsValue 0 digits)
  | minus {digits : List Char} : digits ≠ [] → AreDigits digits →
      IntLiteral ('-' :: digits) (-(digitsValue 0 digits : Int))

/-- Why a text is no literal of a number between `-bound - 1` and `bound`. -/
inductive IntMisread (bound : Nat) : List Char → IntegerFault → Prop
  | empty : IntMisread bound [] .empty
  | bare {c : Char} : c = '+' ∨ c = '-' → IntMisread bound [c] .invalidDigit
  | plain {c : Char} {rest : List Char} {fault : IntegerFault} : c ≠ '+' → c ≠ '-' →
      Spoiled bound .tooLarge 0 (c :: rest) fault → IntMisread bound (c :: rest) fault
  | plus {rest : List Char} {fault : IntegerFault} : Spoiled bound .tooLarge 0 rest fault →
      IntMisread bound ('+' :: rest) fault
  | minus {rest : List Char} {fault : IntegerFault} : Spoiled (bound + 1) .tooSmall 0 rest fault →
      IntMisread bound ('-' :: rest) fault

/-- A text is empty, a sign alone, a sign and more, or begins with no sign. -/
theorem sign_cases {motive : List Char → Prop} (empty : motive [])
    (bare : ∀ c, c = '+' ∨ c = '-' → motive [c]) (plus : ∀ rest, rest ≠ [] → motive ('+' :: rest))
    (minus : ∀ rest, rest ≠ [] → motive ('-' :: rest))
    (plain : ∀ c rest, c ≠ '+' → c ≠ '-' → motive (c :: rest)) (s : List Char) : motive s := by
  cases s with
  | nil => exact empty
  | cons c rest =>
    by_cases hplus : c = '+'
    · obtain rfl := hplus
      by_cases hrest : rest = []
      · exact hrest ▸ bare '+' (Or.inl rfl)
      · exact plus rest hrest
    · by_cases hminus : c = '-'
      · obtain rfl := hminus
        by_cases hrest : rest = []
        · exact hrest ▸ bare '-' (Or.inr rfl)
        · exact minus rest hrest
      · exact plain c rest hplus hminus

variable {value : Int}

theorem intLiteral_plus (hs : s ≠ []) :
    IntLiteral ('+' :: s) value ↔ AreDigits s ∧ value = digitsValue 0 s := by
  constructor
  · intro h
    cases h with
    | plain _ hdigits => exact absurd (areDigits_cons.mp hdigits).1 (by decide)
    | plus _ hdigits => exact ⟨hdigits, rfl⟩
  · rintro ⟨hdigits, rfl⟩
    exact .plus hs hdigits

theorem intLiteral_minus (hs : s ≠ []) :
    IntLiteral ('-' :: s) value ↔ AreDigits s ∧ value = -(digitsValue 0 s : Int) := by
  constructor
  · intro h
    cases h with
    | plain _ hdigits => exact absurd (areDigits_cons.mp hdigits).1 (by decide)
    | minus _ hdigits => exact ⟨hdigits, rfl⟩
  · rintro ⟨hdigits, rfl⟩
    exact .minus hs hdigits

theorem intLiteral_plain (hplus : c ≠ '+') (hminus : c ≠ '-') :
    IntLiteral (c :: s) value ↔ AreDigits (c :: s) ∧ value = digitsValue 0 (c :: s) := by
  constructor
  · intro h
    cases h with
    | plain _ hdigits => exact ⟨hdigits, rfl⟩
    | plus => exact absurd rfl hplus
    | minus => exact absurd rfl hminus
  · rintro ⟨hdigits, rfl⟩
    exact .plain (List.cons_ne_nil c s) hdigits

theorem not_intLiteral_bare (hc : c = '+' ∨ c = '-') : ¬ IntLiteral [c] value := by
  intro h
  cases h with
  | plain _ hdigits =>
    have hdigit := (areDigits_cons.mp hdigits).1
    rcases hc with rfl | rfl
    · exact absurd hdigit (by decide)
    · exact absurd hdigit (by decide)
  | plus hs => exact hs rfl
  | minus hs => exact hs rfl

theorem readInt_plus (hs : s ≠ []) :
    readInt bound ('+' :: s) = (readDigits bound .tooLarge 0 s).map Int.ofNat := by
  cases s with
  | nil => exact absurd rfl hs
  | cons c rest => rfl

theorem readInt_minus (hs : s ≠ []) :
    readInt bound ('-' :: s) =
      (readDigits (bound + 1) .tooSmall 0 s).map fun n : Nat ↦ -(n : Int) := by
  cases s with
  | nil => exact absurd rfl hs
  | cons c rest =>
    have hread : readInt bound ('-' :: c :: rest) =
        (readDigits (bound + 1) .tooSmall 0 (c :: rest) >>= fun n ↦ pure (n : Int)).map
          fun n ↦ -n := rfl
    rw [hread]
    cases readDigits (bound + 1) .tooSmall 0 (c :: rest) with
    | error fault => rfl
    | ok n => rfl

theorem readInt_plain (hplus : c ≠ '+') (hminus : c ≠ '-') (s : List Char) :
    readInt bound (c :: s) = (readDigits bound .tooLarge 0 (c :: s)).map Int.ofNat := by
  unfold readInt
  split <;> simp_all

theorem map_eq_ok_iff {ε β γ : Type} {f : β → γ} {r : Except ε β} {y : γ} :
    r.map f = .ok y ↔ ∃ x, r = .ok x ∧ f x = y := by
  cases r with
  | error e => simp [Except.map]
  | ok x => simp [Except.map]

theorem map_eq_error_iff {ε β γ : Type} {f : β → γ} {r : Except ε β} {e : ε} :
    r.map f = .error e ↔ r = .error e := by
  cases r with
  | error e => simp [Except.map]
  | ok x => simp [Except.map]

theorem mapError_eq_ok_iff {ε ε' β : Type} {f : ε → ε'} {r : Except ε β} {y : β} :
    r.mapError f = .ok y ↔ r = .ok y := by
  cases r with
  | error e => simp [Except.mapError]
  | ok x => simp [Except.mapError]

theorem mapError_eq_error_iff {ε ε' β : Type} {f : ε → ε'} {r : Except ε β} {e : ε'} :
    r.mapError f = .error e ↔ ∃ x, r = .error x ∧ e = f x := by
  cases r with
  | error x => simp [Except.mapError, eq_comm]
  | ok y => simp [Except.mapError]

/-- Just the literals of numbers in bounds are read. -/
theorem readInt_eq_ok_iff :
    readInt bound s = .ok value ↔
      IntLiteral s value ∧ -(bound + 1 : Int) ≤ value ∧ value ≤ bound := by
  induction s using sign_cases with
  | empty =>
    refine ⟨fun h ↦ by simp [readInt] at h, fun h ↦ ?_⟩
    cases h.1 with
    | plain hs => exact absurd rfl hs
  | bare c hc =>
    refine ⟨fun h ↦ ?_, fun h ↦ absurd h.1 (not_intLiteral_bare hc)⟩
    rcases hc with rfl | rfl
    · simp [readInt] at h
    · simp [readInt] at h
  | plus rest hs =>
    rw [readInt_plus hs, map_eq_ok_iff, intLiteral_plus hs]
    simp only [readDigits_eq_ok_iff (Nat.zero_le bound), Int.ofNat_eq_natCast]
    constructor
    · rintro ⟨n, ⟨hdigits, rfl, hle⟩, rfl⟩
      exact ⟨⟨hdigits, rfl⟩, by omega, by omega⟩
    · rintro ⟨⟨hdigits, rfl⟩, -, hle⟩
      exact ⟨_, ⟨hdigits, rfl, by omega⟩, rfl⟩
  | minus rest hs =>
    rw [readInt_minus hs, map_eq_ok_iff, intLiteral_minus hs]
    simp only [readDigits_eq_ok_iff (Nat.zero_le (bound + 1))]
    constructor
    · rintro ⟨n, ⟨hdigits, rfl, hle⟩, rfl⟩
      exact ⟨⟨hdigits, rfl⟩, by omega, by omega⟩
    · rintro ⟨⟨hdigits, rfl⟩, hle, -⟩
      exact ⟨_, ⟨hdigits, rfl, by omega⟩, rfl⟩
  | plain c rest hplus hminus =>
    rw [readInt_plain hplus hminus, map_eq_ok_iff, intLiteral_plain hplus hminus]
    simp only [readDigits_eq_ok_iff (Nat.zero_le bound), Int.ofNat_eq_natCast]
    constructor
    · rintro ⟨n, ⟨hdigits, rfl, hle⟩, rfl⟩
      exact ⟨⟨hdigits, rfl⟩, by omega, by omega⟩
    · rintro ⟨⟨hdigits, rfl⟩, -, hle⟩
      exact ⟨_, ⟨hdigits, rfl, by omega⟩, rfl⟩

theorem readInt_eq_error_iff :
    readInt bound s = .error fault ↔ IntMisread bound s fault := by
  induction s using sign_cases with
  | empty =>
    constructor
    · intro h
      obtain rfl := Except.error.inj h
      exact .empty
    · intro h
      cases h with
      | empty => rfl
  | bare c hc =>
    have hread : readInt bound [c] = .error .invalidDigit := by
      rcases hc with rfl | rfl
      · rfl
      · rfl
    rw [hread]
    constructor
    · intro h
      obtain rfl := Except.error.inj h
      exact .bare hc
    · intro h
      cases h with
      | bare => rfl
      | plain hplus hminus => exact absurd hc (not_or.mpr ⟨hplus, hminus⟩)
      | plus hspoiled => exact absurd rfl (hspoiled.ne_nil (Nat.zero_le _))
      | minus hspoiled => exact absurd rfl (hspoiled.ne_nil (Nat.zero_le _))
  | plus rest hs =>
    rw [readInt_plus hs, map_eq_error_iff, readDigits_eq_error_iff (Nat.zero_le _)]
    refine ⟨.plus, fun h ↦ ?_⟩
    cases h with
    | bare => exact absurd rfl hs
    | plain hplus => exact absurd rfl hplus
    | plus hspoiled => exact hspoiled
  | minus rest hs =>
    rw [readInt_minus hs, map_eq_error_iff, readDigits_eq_error_iff (Nat.zero_le _)]
    refine ⟨.minus, fun h ↦ ?_⟩
    cases h with
    | bare => exact absurd rfl hs
    | plain _ hminus => exact absurd rfl hminus
    | minus hspoiled => exact hspoiled
  | plain c rest hplus hminus =>
    rw [readInt_plain hplus hminus, map_eq_error_iff, readDigits_eq_error_iff (Nat.zero_le _)]
    refine ⟨.plain hplus hminus, fun h ↦ ?_⟩
    cases h with
    | bare hc => exact absurd hc (not_or.mpr ⟨hplus, hminus⟩)
    | plain _ _ hspoiled => exact hspoiled
    | plus => exact absurd rfl hplus
    | minus => exact absurd rfl hminus

/-! ### Unsigned literals -/

/-- An optional plus sign and at least one digit. -/
inductive NatLiteral : List Char → Nat → Prop
  | plain {digits : List Char} : digits ≠ [] → AreDigits digits →
      NatLiteral digits (digitsValue 0 digits)
  | plus {digits : List Char} : digits ≠ [] → AreDigits digits →
      NatLiteral ('+' :: digits) (digitsValue 0 digits)

theorem natLiteral_plus : NatLiteral ('+' :: s) n ↔ s ≠ [] ∧ AreDigits s ∧ n = digitsValue 0 s := by
  constructor
  · intro h
    cases h with
    | plain _ hdigits => exact absurd (areDigits_cons.mp hdigits).1 (by decide)
    | plus hs hdigits => exact ⟨hs, hdigits, rfl⟩
  · rintro ⟨hs, hdigits, rfl⟩
    exact .plus hs hdigits

theorem natLiteral_plain (hplus : c ≠ '+') :
    NatLiteral (c :: s) n ↔ AreDigits (c :: s) ∧ n = digitsValue 0 (c :: s) := by
  constructor
  · intro h
    cases h with
    | plain _ hdigits => exact ⟨hdigits, rfl⟩
    | plus => exact absurd rfl hplus
  · rintro ⟨hdigits, rfl⟩
    exact .plain (List.cons_ne_nil c s) hdigits

theorem readNat_plus (hs : s ≠ []) : readNat bound ('+' :: s) = readDigits bound .tooLarge 0 s := by
  cases s with
  | nil => exact absurd rfl hs
  | cons c rest => rfl

theorem readNat_plain (hplus : c ≠ '+') (s : List Char) :
    readNat bound (c :: s) = readDigits bound .tooLarge 0 (c :: s) := by
  unfold readNat
  split <;> simp_all

/-- Just the literals of numbers up to the bound are read. -/
theorem readNat_eq_ok_iff : readNat bound s = .ok n ↔ NatLiteral s n ∧ n ≤ bound := by
  cases s with
  | nil =>
    refine ⟨fun h ↦ by simp [readNat] at h, fun h ↦ ?_⟩
    cases h.1 with
    | plain hs => exact absurd rfl hs
  | cons c rest =>
    by_cases hplus : c = '+'
    · obtain rfl := hplus
      by_cases hrest : rest = []
      · obtain rfl := hrest
        exact ⟨fun h ↦ by simp [readNat] at h, fun h ↦ absurd rfl (natLiteral_plus.mp h.1).1⟩
      · rw [readNat_plus hrest, readDigits_eq_ok_iff (Nat.zero_le bound), natLiteral_plus]
        simp [hrest, and_assoc]
    · rw [readNat_plain hplus, readDigits_eq_ok_iff (Nat.zero_le bound), natLiteral_plain hplus,
        and_assoc]

/-- A number is written as a literal of it. -/
theorem natLiteral_toString (n : Nat) : NatLiteral (toString n).toList n := by
  have hdigits : AreDigits (Nat.toDigits 10 n) := fun c hc ↦
    Nat.isDigit_of_mem_toDigits (by decide) (by decide) hc
  have hvalue : digitsValue 0 (Nat.toDigits 10 n) = n := by
    have hread : Nat.ofDigitChars 10 (Nat.toDigits 10 n) 0 = n := Nat.ofDigitChars_ten_toDigits
    rw [Nat.ofDigitChars_eq_foldl] at hread
    unfold digitsValue digitValue
    simpa only [Nat.mul_comm] using hread
  have hliteral := NatLiteral.plain Nat.toDigits_ne_nil hdigits
  rw [hvalue] at hliteral
  rw [Nat.toString_eq_ofList_toDigits, String.toList_ofList]
  exact hliteral

end NodeFleet.Number
