import NodeFleet.Proofs.Literals
import NodeFleet.Proofs.Pieces
import NodeFleet.Spec.Explicit
/-!
The grammar of explicit specs. A text is read just if it is a smaller size, a larger size and a name
with colons between them; of any other text the error has the text itself and the first check that
fails. What a spec is rendered as is such a text, so the spec is read back from it.
-/

set_option autoImplicit false
set_option relaxedAutoImplicit false

namespace NodeFleet.ExplicitSpec

open NodeFleet.Number NodeFleet.Text

/-- A literal of a number that a size of 64 bits can be. -/
def IsSize (text : List Char) (n : Nat) : Prop :=
  NatLiteral text n ∧ n ≤ 18446744073709551615

/-- Whether the text is a literal of each size and then the name, with colons between them. -/
structure Spells (text : String) (s : ExplicitSpec) : Prop where
  joined : ∃ min max, text.toList = min ++ ':' :: (max ++ ':' :: s.name.toList) ∧
    IsSize min s.min ∧ IsSize max s.max
  rising : s.min < s.max
  named : s.name ≠ ""
  unmarked : ':' ∉ s.name.toList

/-- The first check that fails of the pieces between the colons of a text. -/
inductive Fails : List (List Char) → SpecFault → Prop
  | fieldCount {pieces : List (List Char)} : pieces.length ≠ 3 → Fails pieces .fieldCount
  | minSize {min max name : List Char} : (∀ n, ¬ IsSize min n) → Fails [min, max, name] .minSize
  | maxSize {min max name : List Char} {n : Nat} : IsSize min n → (∀ m, ¬ IsSize max m) →
      Fails [min, max, name] .maxSize
  | order {min max name : List Char} {n m : Nat} : IsSize min n → IsSize max m → m ≤ n →
      Fails [min, max, name] .order
  | emptyName {min max : List Char} {n m : Nat} : IsSize min n → IsSize max m → n < m →
      Fails [min, max, []] .emptyName

variable {text : String} {s : ExplicitSpec} {pieces : List (List Char)} {fault : SpecFault}

/-! ### Sizes -/

section
variable {size : List Char} {n m : Nat}

theorem readNat_eq_ok_iff_isSize : readNat maxUnsigned64 size = .ok n ↔ IsSize size n := by
  have hmost : maxUnsigned64 = 18446744073709551615 := rfl
  rw [readNat_eq_ok_iff, hmost]
  rfl

theorem IsSize.unique (hn : IsSize size n) (hm : IsSize size m) : n = m := by
  rw [← readNat_eq_ok_iff_isSize] at hn hm
  rw [hn] at hm
  exact Except.ok.inj hm

theorem not_isSize_iff : (∀ n, ¬ IsSize size n) ↔ ∃ e, readNat maxUnsigned64 size = .error e := by
  simp only [← readNat_eq_ok_iff_isSize]
  cases readNat maxUnsigned64 size with
  | error e => simp
  | ok n => simp

theorem IsSize.notMem_colon (h : IsSize size n) : ':' ∉ size := by
  have hplain : ∀ {digits : List Char}, AreDigits digits → ':' ∉ digits := fun hdigits hcolon ↦
    absurd (hdigits ':' hcolon) (by decide)
  cases h.1 with
  | plain _ hdigits => exact hplain hdigits
  | plus _ hdigits =>
    rw [List.mem_cons, not_or]
    exact ⟨by decide, hplain hdigits⟩

theorem isSize_toString (h : n ≤ 18446744073709551615) : IsSize (toString n).toList n :=
  ⟨natLiteral_toString n, h⟩

end

/-! ### Three fields -/

theorem ofFields_of_isSize {min max name : List Char} {n m : Nat} (hmin : IsSize min n)
    (hmax : IsSize max m) :
    ofFields [min, max, name] =
      if m ≤ n then .error .order
      else if name = [] then .error .emptyName else .ok ⟨n, m, String.ofList name⟩ := by
  simp only [ofFields, readNat_eq_ok_iff_isSize.mpr hmin, readNat_eq_ok_iff_isSize.mpr hmax]

theorem ofFields_of_fails (h : Fails pieces fault) : ofFields pieces = .error fault := by
  cases h with
  | fieldCount hlength =>
    unfold ofFields
    split
    · exact absurd rfl hlength
    · rfl
  | minSize hmin =>
    obtain ⟨e, hread⟩ := not_isSize_iff.mp hmin
    simp only [ofFields, hread]
  | maxSize hmin hmax =>
    obtain ⟨e, hread⟩ := not_isSize_iff.mp hmax
    simp only [ofFields, readNat_eq_ok_iff_isSize.mpr hmin, hread]
  | order hmin hmax horder => rw [ofFields_of_isSize hmin hmax, if_pos horder]
  | emptyName hmin hmax horder =>
    rw [ofFields_of_isSize hmin hmax, if_neg (Nat.not_le_of_lt horder), if_pos rfl]

/-- Pieces that are no spec fail one of the checks. -/
theorem fails_or_eq (pieces : List (List Char)) :
    (∃ fault, Fails pieces fault) ∨ ∃ min max name n m, pieces = [min, max, name] ∧ IsSize min n ∧
      IsSize max m ∧ n < m ∧ name ≠ [] := by
  by_cases hlength : pieces.length = 3
  · obtain ⟨min, max, name, rfl⟩ := List.length_eq_three.mp hlength
    by_cases hmin : ∀ n, ¬ IsSize min n
    · exact Or.inl ⟨_, .minSize hmin⟩
    obtain ⟨n, hmin⟩ := not_forall_not.mp hmin
    by_cases hmax : ∀ m, ¬ IsSize max m
    · exact Or.inl ⟨_, .maxSize hmin hmax⟩
    obtain ⟨m, hmax⟩ := not_forall_not.mp hmax
    by_cases horder : m ≤ n
    · exact Or.inl ⟨_, .order hmin hmax horder⟩
    by_cases hname : name = []
    · obtain rfl := hname
      exact Or.inl ⟨_, .emptyName hmin hmax (Nat.lt_of_not_le horder)⟩
    · exact Or.inr ⟨min, max, name, n, m, rfl, hmin, hmax, Nat.lt_of_not_le horder, hname⟩
  · exact Or.inl ⟨_, .fieldCount hlength⟩

theorem ofFields_eq_error_iff : ofFields pieces = .error fault ↔ Fails pieces fault := by
  refine ⟨fun h ↦ ?_, ofFields_of_fails⟩
  rcases fails_or_eq pieces with
    ⟨fault', hfails⟩ | ⟨min, max, name, n, m, rfl, hmin, hmax, horder, hname⟩
  · rw [ofFields_of_fails hfails] at h
    obtain rfl := Except.error.inj h
    exact hfails
  · rw [ofFields_of_isSize hmin hmax, if_neg (Nat.not_le_of_lt horder), if_neg hname] at h
    cases h

theorem ofFields_eq_ok_iff :
    ofFields pieces = .ok s ↔ ∃ min max, pieces = [min, max, s.name.toList] ∧
      IsSize min s.min ∧ IsSize max s.max ∧ s.min < s.max ∧ s.name ≠ "" := by
  constructor
  · intro h
    rcases fails_or_eq pieces with
      ⟨fault, hfails⟩ | ⟨min, max, name, n, m, rfl, hmin, hmax, horder, hname⟩
    · rw [ofFields_of_fails hfails] at h
      cases h
    · rw [ofFields_of_isSize hmin hmax, if_neg (Nat.not_le_of_lt horder), if_neg hname] at h
      obtain rfl := Except.ok.inj h
      exact ⟨min, max, by rw [String.toList_ofList], hmin, hmax, horder, by simpa using hname⟩
  · rintro ⟨min, max, rfl, hmin, hmax, horder, hname⟩
    rw [ofFields_of_isSize hmin hmax, if_neg (Nat.not_le_of_lt horder),
      if_neg (by simpa using hname), String.ofList_toList]

/-! ### Texts -/

theorem pieces_colon_iff {min max name t : List Char} (hmin : ':' ∉ min) (hmax : ':' ∉ max) :
    Pieces ':' t [min, max, name] ↔ t = min ++ ':' :: (max ++ ':' :: name) ∧ ':' ∉ name := by
  constructor
  · rintro ⟨-, hunmarked, rfl⟩
    exact ⟨by simp [List.intercalate], hunmarked name (by simp)⟩
  · rintro ⟨rfl, hname⟩
    exact ⟨by simp, by simp [hmin, hmax, hname], by simp [List.intercalate]⟩

theorem parse_eq_ok_iff : parse text = .ok s ↔ Spells text s := by
  unfold parse
  rw [mapError_eq_ok_iff, ofFields_eq_ok_iff]
  constructor
  · rintro ⟨min, max, hfields, hmin, hmax, horder, hname⟩
    obtain ⟨htext, hcolon⟩ :=
      (pieces_colon_iff hmin.notMem_colon hmax.notMem_colon).mp (fields_eq_iff.mp hfields)
    exact ⟨⟨min, max, htext, hmin, hmax⟩, horder, hname, hcolon⟩
  · rintro ⟨⟨min, max, htext, hmin, hmax⟩, horder, hname, hcolon⟩
    have hpieces := (pieces_colon_iff hmin.notMem_colon hmax.notMem_colon).mpr ⟨htext, hcolon⟩
    exact ⟨min, max, fields_eq_iff.mpr hpieces, hmin, hmax, horder, hname⟩

theorem parse_eq_error_iff {e : Error} :
    parse text = .error e ↔ ∃ pieces fault, Pieces ':' text.toList pieces ∧ Fails pieces fault ∧
      e = .malformedSpec text fault := by
  unfold parse
  rw [mapError_eq_error_iff]
  simp only [ofFields_eq_error_iff, ← fields_eq_iff]
  constructor
  · rintro ⟨fault, hfails, rfl⟩
    exact ⟨_, fault, rfl, hfails, rfl⟩
  · rintro ⟨pieces, fault, rfl, hfails, rfl⟩
    exact ⟨fault, hfails, rfl⟩

theorem spells_render (horder : s.min < s.max) (hmax : s.max ≤ 18446744073709551615)
    (hname : s.name ≠ "") (hcolon : ':' ∉ s.name.toList) : Spells s.render s where
  joined := by
    have hmin : s.min ≤ 18446744073709551615 := by omega
    refine ⟨_, _, ?_, isSize_toString hmin, isSize_toString hmax⟩
    simp [render]
  rising := horder
  named := hname
  unmarked := hcolon

/-- Just the texts of the grammar are read, and as the spec that they spell. Any other text
has the error with the text itself and its first failing check. A spec in bounds is read back
from its rendering. -/
theorem explicit_grammar (text : String) (s : ExplicitSpec) :
    (parse text = .ok s ↔ Spells text s) ∧
    (∀ e, parse text = .error e ↔ ∃ pieces fault, Pieces ':' text.toList pieces ∧
      Fails pieces fault ∧ e = .malformedSpec text fault) ∧
    ((∀ s', ¬ Spells text s') → ∃ pieces fault, Pieces ':' text.toList pieces ∧
      Fails pieces fault ∧ parse text = .error (.malformedSpec text fault)) ∧
    (s.min < s.max → s.max ≤ 18446744073709551615 → s.name ≠ "" → ':' ∉ s.name.toList →
      parse s.render = .ok s) := by
  refine ⟨parse_eq_ok_iff, fun e ↦ parse_eq_error_iff, fun hnone ↦ ?_, ?_⟩
  · cases hparse : parse text with
    | ok s' => exact absurd (parse_eq_ok_iff.mp hparse) (hnone s')
    | error e =>
      obtain ⟨pieces, fault, hpieces, hfails, rfl⟩ := parse_eq_error_iff.mp hparse
      exact ⟨pieces, fault, hpieces, hfails, rfl⟩
  · intro horder hmax hname hcolon
    exact parse_eq_ok_iff.mpr (spells_render horder hmax hname hcolon)

theorem explicit_grammar_test_asg :
    parse "007:+15:test-asg" = .ok ⟨7, 15, "test-asg"⟩ ∧
    (∃ pieces fault, Pieces ':' "15:15:test-asg".toList pieces ∧ Fails pieces fault ∧
      parse "15:15:test-asg" = .error (.malformedSpec "15:15:test-asg" fault)) ∧
    parse "15:15:test-asg" = .error (.malformedSpec "15:15:test-asg" .order) ∧
    parse (render ⟨7, 15, "test-asg"⟩) = .ok ⟨7, 15, "test-asg"⟩ := by
  have hmin : IsSize ['0', '0', '7'] 7 :=
    ⟨.plain (by decide) (List.all_eq_true.mp (by decide)), by omega⟩
  have hmax : IsSize ['+', '1', '5'] 15 :=
    ⟨.plus (by decide) (List.all_eq_true.mp (by decide)), by omega⟩
  have hequal : IsSize ['1', '5'] 15 :=
    ⟨.plain (by decide) (List.all_eq_true.mp (by decide)), by omega⟩
  have hpieces : Pieces ':' "15:15:test-asg".toList [['1', '5'], ['1', '5'], "test-asg".toList] :=
    ⟨by decide, by decide, by decide⟩
  have hfails := ((explicit_grammar "15:15:test-asg" ⟨7, 15, "test-asg"⟩).2.1 _).mpr
    ⟨_, _, hpieces, .order hequal hequal (Nat.le_refl 15), rfl⟩
  refine ⟨?_, (explicit_grammar "15:15:test-asg" ⟨7, 15, "test-asg"⟩).2.2.1 fun s' hspells ↦ ?_,
    hfails, ?_⟩
  · exact (explicit_grammar _ _).1.mpr
      ⟨⟨['0', '0', '7'], ['+', '1', '5'], by decide, hmin, hmax⟩, by decide, by decide, by decide⟩
  · have hread := (explicit_grammar "15:15:test-asg" s').1.mpr hspells
    rw [hfails] at hread
    cases hread
  · exact (explicit_grammar "" ⟨7, 15, "test-asg"⟩).2.2.2 (by decide) (by decide) (by decide)
      (by decide)

end NodeFleet.ExplicitSpec
