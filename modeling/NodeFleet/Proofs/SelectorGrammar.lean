import Mathlib.Data.List.Nodup
import NodeFleet.Proofs.Pieces
import NodeFleet.Proofs.SizeTags
/-!
The grammar of label selectors and what a selector means. A text is read just if each of the pieces
between its commas has something that is not blank on both sides of its first equals sign; of any
other text the error has the first piece that does not. For each key the last piece with it counts,
and the selector matches the tags that have all these values. A selector whose pairs are plain is
read back from its rendering, in whichever order the pairs stand.
-/

set_option autoImplicit false
set_option relaxedAutoImplicit false

namespace NodeFleet.Selector

open NodeFleet.Number NodeFleet.Text

/-- Whether there is something that is not blank on each side of the first equals sign. -/
def IsPair (piece : List Char) : Prop :=
  ∃ before after, piece = before ++ '=' :: after ∧ '=' ∉ before ∧
    (∃ c ∈ before, isBlank c = false) ∧ ∃ c ∈ after, isBlank c = false

/-- Whether the key and the value are what is left of the two sides without the
blank around them. -/
structure Gives (piece : List Char) (key value : String) : Prop where
  around : ∃ before after, piece = before ++ '=' :: after ∧ '=' ∉ before ∧
    Trims before key.toList ∧ Trims after value.toList
  key : key ≠ ""
  value : value ≠ ""

/-- Whether the last of the pieces that give the key gives it the value. -/
def LastGives (pieces : List (List Char)) (key value : String) : Prop :=
  ∃ earlier piece later, pieces = earlier ++ piece :: later ∧ Gives piece key value ∧
    ∀ other ∈ later, ∀ v, ¬ Gives other key v

/-- Whether the text is the prefix and then the pieces, with commas between them. -/
def Lists (text : String) (pieces : List (List Char)) : Prop :=
  ∃ rest, text.toList = "label:".toList ++ rest ∧ Pieces ',' rest pieces

/-- What a selector says that is read from the pieces. -/
structure Means (s : Selector) (pieces : List (List Char)) : Prop where
  nonempty : s.pairs.isEmpty = false
  pairs : ∀ key value, s.pairs.get? key = some value ↔ LastGives pieces key value
  unblank : ∀ key value, s.pairs.get? key = some value →
    (∃ c ∈ key.toList, isBlank c = false) ∧ ∃ c ∈ value.toList, isBlank c = false
  tight : ∀ key value, s.pairs.get? key = some value → Tight key.toList ∧ Tight value.toList
  selects : ∀ tags, s.matchesTags tags = true ↔
    ∀ key value, LastGives pieces key value → tags.get? key = some value

/-- What is wrong with a text, the prefix before the first piece that is no pair. -/
inductive Misspells (text : String) : Error → Prop
  | form : ¬ "label:".toList <+: text.toList → Misspells text (.unsupportedDiscoveryForm text)
  | piece {earlier later : List (List Char)} {piece : List Char} :
      Lists text (earlier ++ piece :: later) → (∀ p ∈ earlier, IsPair p) → ¬ IsPair piece →
      Misspells text (.invalidSelectorPair text (String.ofList piece))

/-- Whether the pairs can be written without a mark that means something else. -/
structure Plain (s : Selector) : Prop where
  nonempty : s.pairs.isEmpty = false
  unblank : ∀ key value, s.pairs.get? key = some value → key ≠ "" ∧ value ≠ ""
  tight : ∀ key value, s.pairs.get? key = some value → Tight key.toList ∧ Tight value.toList
  unmarked : ∀ key value, s.pairs.get? key = some value →
    ',' ∉ key.toList ∧ '=' ∉ key.toList ∧ ',' ∉ value.toList

variable {text : String} {s : Selector} {t table : Table String} {piece : List Char}
  {pieces : List (List Char)} {key value v : String}

/-! ### One piece -/

theorem pair?_eq_some_iff : pair? piece = some (key, value) ↔ Gives piece key value := by
  unfold pair?
  constructor
  · intro h
    cases hcut : cut? '=' piece with
    | none =>
      rw [hcut] at h
      cases h
    | some sides =>
      obtain ⟨before, after⟩ := sides
      rw [hcut] at h
      dsimp only at h
      split_ifs at h with hblank
      obtain ⟨rfl, rfl⟩ := Prod.mk.inj (Option.some.inj h)
      obtain ⟨hpiece, hbefore⟩ := cut?_eq_some_iff.mp hcut
      rw [not_or] at hblank
      refine ⟨⟨before, after, hpiece, hbefore, ?_, ?_⟩, ?_, ?_⟩
      · exact String.toList_ofList ▸ trims_trim before
      · exact String.toList_ofList ▸ trims_trim after
      · simpa using hblank.1
      · simpa using hblank.2
  · rintro ⟨⟨before, after, hpiece, hbefore, hkey, hvalue⟩, hkeyed, hvalued⟩
    rw [cut?_eq_some_iff.mpr ⟨hpiece, hbefore⟩]
    dsimp only
    rw [trim_of_trims hkey, trim_of_trims hvalue, if_neg (by simpa using ⟨hkeyed, hvalued⟩),
      String.ofList_toList, String.ofList_toList]

theorem Gives.unique {key' value' : String} (h : Gives piece key value)
    (h' : Gives piece key' value') : key = key' ∧ value = value' := by
  rw [← pair?_eq_some_iff] at h h'
  rw [h] at h'
  exact Prod.mk.inj (Option.some.inj h')

theorem Gives.unblank (h : Gives piece key value) :
    (∃ c ∈ key.toList, isBlank c = false) ∧ ∃ c ∈ value.toList, isBlank c = false := by
  obtain ⟨before, after, -, -, hkey, hvalue⟩ := h.around
  exact ⟨hkey.tight.exists_unblank (by simpa using h.key),
    hvalue.tight.exists_unblank (by simpa using h.value)⟩

theorem Gives.tight (h : Gives piece key value) : Tight key.toList ∧ Tight value.toList := by
  obtain ⟨before, after, -, -, hkey, hvalue⟩ := h.around
  exact ⟨hkey.tight, hvalue.tight⟩

theorem isPair_iff : IsPair piece ↔ ∃ key value, Gives piece key value := by
  constructor
  · rintro ⟨before, after, hpiece, hbefore, hkey, hvalue⟩
    refine ⟨String.ofList (trim before), String.ofList (trim after),
      ⟨before, after, hpiece, hbefore, ?_, ?_⟩, ?_, ?_⟩
    · exact String.toList_ofList ▸ trims_trim before
    · exact String.toList_ofList ▸ trims_trim after
    · simpa using (trims_trim before).ne_nil_iff.mpr hkey
    · simpa using (trims_trim after).ne_nil_iff.mpr hvalue
  · rintro ⟨key, value, h⟩
    obtain ⟨before, after, hpiece, hbefore, hkey, hvalue⟩ := h.around
    exact ⟨before, after, hpiece, hbefore, hkey.ne_nil_iff.mp (by simpa using h.key),
      hvalue.ne_nil_iff.mp (by simpa using h.value)⟩

theorem pair?_eq_none_iff : pair? piece = none ↔ ¬ IsPair piece := by
  rw [isPair_iff]
  simp only [← pair?_eq_some_iff]
  cases pair? piece with
  | none => simp
  | some e => simpa using ⟨e.1, e.2, rfl⟩

/-! ### All pieces -/

theorem addPieces_of_gives (h : Gives piece key value) :
    addPieces table (piece :: pieces) = addPieces (table.insert key value) pieces := by
  rw [addPieces, pair?_eq_some_iff.mpr h]

theorem addPieces_of_not_isPair (h : ¬ IsPair piece) :
    addPieces table (piece :: pieces) = .error piece := by
  rw [addPieces, pair?_eq_none_iff.mpr h]

theorem exists_addPieces_iff :
    (∃ t, addPieces table pieces = .ok t) ↔ ∀ piece ∈ pieces, IsPair piece := by
  induction pieces generalizing table with
  | nil => simp [addPieces]
  | cons piece rest ih =>
    rw [List.forall_mem_cons]
    by_cases hpiece : IsPair piece
    · obtain ⟨key, value, hgives⟩ := isPair_iff.mp hpiece
      rw [addPieces_of_gives hgives, ih]
      exact (and_iff_right hpiece).symm
    · rw [addPieces_of_not_isPair hpiece]
      simp [hpiece]

/-- The first piece that is no pair is the error. -/
theorem addPieces_eq_error_iff :
    addPieces table pieces = .error piece ↔ ∃ earlier later, pieces = earlier ++ piece :: later ∧
      (∀ p ∈ earlier, IsPair p) ∧ ¬ IsPair piece := by
  induction pieces generalizing table with
  | nil => simp [addPieces]
  | cons first rest ih =>
    by_cases hfirst : IsPair first
    · obtain ⟨key, value, hgives⟩ := isPair_iff.mp hfirst
      rw [addPieces_of_gives hgives, ih]
      constructor
      · rintro ⟨earlier, later, rfl, hearlier, hpiece⟩
        exact ⟨first :: earlier, later, rfl, List.forall_mem_cons.mpr ⟨hfirst, hearlier⟩, hpiece⟩
      · rintro ⟨earlier, later, hsplit, hearlier, hpiece⟩
        cases earlier with
        | nil =>
          obtain ⟨rfl, rfl⟩ := List.cons.inj hsplit
          exact absurd hfirst hpiece
        | cons e earlier =>
          obtain ⟨rfl, rfl⟩ := List.cons.inj hsplit
          exact ⟨earlier, later, rfl, (List.forall_mem_cons.mp hearlier).2, hpiece⟩
    · rw [addPieces_of_not_isPair hfirst, Except.error.injEq]
      constructor
      · rintro rfl
        exact ⟨[], rest, rfl, by simp, hfirst⟩
      · rintro ⟨earlier, later, hsplit, hearlier, -⟩
        cases earlier with
        | nil => exact (List.cons.inj hsplit).1
        | cons e earlier =>
          obtain ⟨rfl, rfl⟩ := List.cons.inj hsplit
          exact absurd (hearlier first List.mem_cons_self) hfirst

theorem lastGives_cons :
    LastGives (piece :: pieces) key value ↔ LastGives pieces key value ∨
      Gives piece key value ∧ ∀ other ∈ pieces, ∀ v, ¬ Gives other key v := by
  constructor
  · rintro ⟨earlier, last, later, hsplit, hlast, hlater⟩
    cases earlier with
    | nil =>
      obtain ⟨rfl, rfl⟩ := List.cons.inj hsplit
      exact Or.inr ⟨hlast, hlater⟩
    | cons e earlier =>
      obtain ⟨rfl, rfl⟩ := List.cons.inj hsplit
      exact Or.inl ⟨earlier, last, later, rfl, hlast, hlater⟩
  · rintro (⟨earlier, last, later, rfl, hlast, hlater⟩ | ⟨hpiece, hnone⟩)
    · exact ⟨piece :: earlier, last, later, rfl, hlast, hlater⟩
    · exact ⟨[], piece, pieces, rfl, hpiece, hnone⟩

/-- Each key has the value of the last piece that gives the key one, or without such a piece
its value before. -/
theorem get?_addPieces (h : addPieces table pieces = .ok t) :
    t.get? key = some value ↔ LastGives pieces key value ∨
      table.get? key = some value ∧ ∀ other ∈ pieces, ∀ v, ¬ Gives other key v := by
  induction pieces generalizing table with
  | nil =>
    obtain rfl := Except.ok.inj h
    simp [LastGives]
  | cons piece rest ih =>
    have hpieces := exists_addPieces_iff.mp ⟨t, h⟩
    obtain ⟨key', value', hgives⟩ := isPair_iff.mp (hpieces piece List.mem_cons_self)
    rw [addPieces_of_gives hgives] at h
    rw [ih h, lastGives_cons, Table.get?_insert, List.forall_mem_cons, or_assoc]
    refine or_congr_right ?_
    by_cases hkey : key' = key
    · obtain rfl := hkey
      have hown : ¬ ∀ v, ¬ Gives piece key' v := fun hnone ↦ hnone value' hgives
      have hvalue : Gives piece key' value ↔ value' = value := by
        constructor
        · exact fun hgives' ↦ (hgives.unique hgives').2
        · rintro rfl
          exact hgives
      simp [hown, hvalue]
    · have hnone : ∀ v, ¬ Gives piece key v := fun v hother ↦ hkey (hgives.unique hother).1
      simp [hkey, hnone]

/-! ### Texts -/

theorem lists_iff :
    Lists text pieces ↔ heading.isPrefixOf text.toList = true ∧
      fields ',' (text.toList.drop heading.length) = pieces := by
  rw [List.isPrefixOf_iff_prefix, fields_eq_iff]
  constructor
  · rintro ⟨rest, htext, hpieces⟩
    refine ⟨⟨rest, htext.symm⟩, ?_⟩
    rw [htext]
    exact hpieces
  · rintro ⟨⟨rest, htext⟩, hpieces⟩
    refine ⟨rest, htext.symm, ?_⟩
    rw [← htext, List.drop_left] at hpieces
    exact hpieces

theorem Lists.nonempty (h : Lists text pieces) : pieces ≠ [] := by
  obtain ⟨rest, -, hpieces⟩ := h
  exact hpieces.nonempty

theorem Lists.unique {pieces' : List (List Char)} (h : Lists text pieces)
    (h' : Lists text pieces') : pieces = pieces' :=
  (lists_iff.mp h).2.symm.trans (lists_iff.mp h').2

theorem parse_of_lists (h : Lists text pieces) :
    parse text = ((addPieces .empty pieces).map Selector.mk).mapError fun piece ↦
      .invalidSelectorPair text (String.ofList piece) := by
  obtain ⟨hlabel, rfl⟩ := lists_iff.mp h
  unfold parse
  rw [if_pos hlabel]
  cases addPieces .empty (fields ',' (text.toList.drop heading.length)) with
  | ok pairs => rfl
  | error piece => rfl

theorem exists_lists_iff : (∃ pieces, Lists text pieces) ↔ "label:".toList <+: text.toList := by
  simp only [lists_iff, List.isPrefixOf_iff_prefix, exists_and_left, exists_eq', and_true]
  rfl

theorem parse_of_unlabelled (h : ¬ "label:".toList <+: text.toList) :
    parse text = .error (.unsupportedDiscoveryForm text) := by
  have hheading : ¬ heading.isPrefixOf text.toList = true := mt List.isPrefixOf_iff_prefix.mp h
  unfold parse
  rw [if_neg hheading]

theorem parse_eq_ok_iff :
    parse text = .ok s ↔ ∃ pieces, Lists text pieces ∧ addPieces .empty pieces = .ok s.pairs := by
  by_cases hlabel : "label:".toList <+: text.toList
  · obtain ⟨pieces, hlists⟩ := exists_lists_iff.mpr hlabel
    rw [parse_of_lists hlists, mapError_eq_ok_iff, map_eq_ok_iff]
    constructor
    · rintro ⟨t, hadd, rfl⟩
      exact ⟨pieces, hlists, hadd⟩
    · rintro ⟨pieces', hlists', hadd⟩
      obtain rfl := hlists.unique hlists'
      exact ⟨s.pairs, hadd, rfl⟩
  · rw [parse_of_unlabelled hlabel]
    constructor
    · intro h
      cases h
    · rintro ⟨pieces, hlists, -⟩
      exact absurd (exists_lists_iff.mp ⟨pieces, hlists⟩) hlabel

theorem parse_eq_error_iff {e : Error} : parse text = .error e ↔ Misspells text e := by
  by_cases hlabel : "label:".toList <+: text.toList
  · obtain ⟨pieces, hlists⟩ := exists_lists_iff.mpr hlabel
    rw [parse_of_lists hlists, mapError_eq_error_iff]
    simp only [map_eq_error_iff, addPieces_eq_error_iff]
    constructor
    · rintro ⟨piece, ⟨earlier, later, rfl, hearlier, hpiece⟩, rfl⟩
      exact .piece hlists hearlier hpiece
    · intro h
      cases h with
      | form hnone => exact absurd hlabel hnone
      | piece hlists' hearlier hpiece =>
        obtain rfl := hlists.unique hlists'
        exact ⟨_, ⟨_, _, rfl, hearlier, hpiece⟩, rfl⟩
  · rw [parse_of_unlabelled hlabel, Except.error.injEq]
    constructor
    · rintro rfl
      exact .form hlabel
    · intro h
      cases h with
      | form => rfl
      | piece hlists => exact absurd (exists_lists_iff.mp ⟨_, hlists⟩) hlabel

/-- The key of the last piece has its value. -/
theorem exists_lastGives (hnonempty : pieces ≠ []) (hpieces : ∀ piece ∈ pieces, IsPair piece) :
    ∃ key value, LastGives pieces key value := by
  obtain ⟨earlier, piece, rfl⟩ := (List.eq_nil_or_concat' pieces).resolve_left hnonempty
  obtain ⟨key, value, hgives⟩ := isPair_iff.mp (hpieces piece (by simp))
  exact ⟨key, value, earlier, piece, [], rfl, hgives, by simp⟩

theorem means_of_parse (h : parse text = .ok s) (hlists : Lists text pieces) : Means s pieces := by
  obtain ⟨pieces', hlists', hadd⟩ := parse_eq_ok_iff.mp h
  obtain rfl := hlists'.unique hlists
  have hget : ∀ key value, s.pairs.get? key = some value ↔ LastGives pieces' key value := by
    intro key value
    rw [get?_addPieces hadd]
    simp
  have hgives : ∀ key value, s.pairs.get? key = some value → ∃ piece, Gives piece key value := by
    intro key value hsome
    obtain ⟨-, piece, -, -, hpiece, -⟩ := (hget key value).mp hsome
    exact ⟨piece, hpiece⟩
  have hnonempty : s.pairs.isEmpty = false := by
    obtain ⟨key, value, hlast⟩ :=
      exists_lastGives hlists.nonempty (exists_addPieces_iff.mp ⟨_, hadd⟩)
    exact (Table.isEmpty_eq_false_iff s.pairs).mpr ⟨key, value, (hget key value).mpr hlast⟩
  refine ⟨hnonempty, hget, fun key value hsome ↦ ?_, fun key value hsome ↦ ?_, fun tags ↦ ?_⟩
  · obtain ⟨piece, hpiece⟩ := hgives key value hsome
    exact hpiece.unblank
  · obtain ⟨piece, hpiece⟩ := hgives key value hsome
    exact hpiece.tight
  · simp only [← hget]
    rw [matchesTags_iff]
    exact ⟨fun hselects ↦ hselects.tagged,
      fun htagged ↦ ⟨(Table.isEmpty_eq_false_iff s.pairs).mp hnonempty, htagged⟩⟩

/-! ### Rendered pairs -/

def written (e : String × String) : List Char :=
  e.1.toList ++ '=' :: e.2.toList

theorem toList_render (s : Selector) :
    s.render.toList = "label:".toList ++ [','].intercalate (s.pairs.entries.map written) := by
  unfold render
  rw [String.toList_append, String.toList_ofList, String.toList_intercalate, List.map_map]
  have hwritten : String.toList ∘ (fun e : String × String ↦ e.1 ++ "=" ++ e.2) = written := by
    funext e
    simp [written]
  rw [hwritten]
  rfl

theorem store_of_notMem {entries : List (String × String)} (h : key ∉ entries.map Prod.fst) :
    store key value entries = entries ++ [(key, value)] := by
  induction entries with
  | nil => rfl
  | cons e rest ih =>
    rw [List.map_cons, List.mem_cons, not_or] at h
    have hne : ¬ e.1 = key := fun he ↦ h.1 he.symm
    simp [store, hne, ih h.2]

/-- Pairs with new keys are added as they stand. -/
theorem addPieces_written {entries : List (String × String)}
    (hgives : ∀ e ∈ entries, Gives (written e) e.1 e.2)
    (hdistinct : ((table.entries ++ entries).map Prod.fst).Nodup) :
    addPieces table (entries.map written) = .ok ⟨table.entries ++ entries, hdistinct⟩ := by
  induction entries generalizing table with
  | nil => simp [addPieces]
  | cons e rest ih =>
    rw [List.forall_mem_cons] at hgives
    have hnew : e.1 ∉ table.entries.map Prod.fst := by
      rw [List.map_append, List.map_cons] at hdistinct
      exact fun hmem ↦ (List.disjoint_of_nodup_append hdistinct) hmem List.mem_cons_self
    have hinsert : (table.insert e.1 e.2).entries = table.entries ++ [e] := store_of_notMem hnew
    have happend : (table.insert e.1 e.2).entries ++ rest = table.entries ++ e :: rest := by
      rw [hinsert, List.append_assoc]
      rfl
    rw [List.map_cons, addPieces_of_gives hgives.1,
      ih hgives.2 (by rw [happend]; exact hdistinct)]
    simp only [happend]

theorem gives_written (h : s.Plain) {e : String × String} (he : e ∈ s.pairs.entries) :
    Gives (written e) e.1 e.2 := by
  have hget : s.pairs.get? e.1 = some e.2 := (s.pairs.get?_eq_some_iff e.1 e.2).mpr he
  obtain ⟨hkey, hvalue⟩ := h.tight _ _ hget
  obtain ⟨-, hequals, -⟩ := h.unmarked _ _ hget
  exact ⟨⟨_, _, rfl, hequals, hkey.trims, hvalue.trims⟩, (h.unblank _ _ hget).1,
    (h.unblank _ _ hget).2⟩

theorem lists_render (h : s.Plain) : Lists s.render (s.pairs.entries.map written) := by
  refine ⟨_, toList_render s, ?_, fun piece hpiece ↦ ?_, rfl⟩
  · rw [Ne, List.map_eq_nil_iff, ← List.isEmpty_iff]
    exact Bool.eq_false_iff.mp h.nonempty
  · obtain ⟨e, he, rfl⟩ := List.mem_map.mp hpiece
    obtain ⟨hkey, -, hvalue⟩ := h.unmarked _ _ ((s.pairs.get?_eq_some_iff e.1 e.2).mpr he)
    simp [written, hkey, hvalue]

theorem parse_render (h : s.Plain) : parse s.render = .ok s := by
  rw [parse_eq_ok_iff]
  have hdistinct : (((.empty : Table String).entries ++ s.pairs.entries).map Prod.fst).Nodup :=
    s.pairs.distinct
  have hadd : addPieces .empty (s.pairs.entries.map written) = .ok s.pairs :=
    addPieces_written (fun e he ↦ gives_written h he) hdistinct
  exact ⟨_, lists_render h, hadd⟩

theorem get?_eq_of_perm {s' : Selector} (h : s'.pairs.entries.Perm s.pairs.entries) (key : String) :
    s'.pairs.get? key = s.pairs.get? key := by
  refine Option.ext fun value ↦ ?_
  rw [Table.get?_eq_some_iff, Table.get?_eq_some_iff, h.mem_iff]

theorem Plain.of_perm {s' : Selector} (h : s.Plain)
    (hperm : s'.pairs.entries.Perm s.pairs.entries) : s'.Plain := by
  have hget := get?_eq_of_perm hperm
  refine ⟨?_, ?_, ?_, ?_⟩
  · rw [Table.isEmpty_eq_false_iff]
    simp only [hget]
    exact (Table.isEmpty_eq_false_iff s.pairs).mp h.nonempty
  · simp only [hget]
    exact h.unblank
  · simp only [hget]
    exact h.tight
  · simp only [hget]
    exact h.unmarked

/-- Just the texts whose pieces are all pairs are read, and the selector means what the pieces say.
Any other text has the error of its prefix or of its first piece that is no pair. Plain pairs are
read back from their rendering, in whichever order they stand. -/
theorem label_grammar (text : String) :
    ((∃ s, parse text = .ok s) ↔
      ∃ pieces, Lists text pieces ∧ ∀ piece ∈ pieces, IsPair piece) ∧
    (∀ s pieces, parse text = .ok s → Lists text pieces → Means s pieces) ∧
    (∀ e, parse text = .error e ↔ Misspells text e) ∧
    (∀ s s' : Selector, s.Plain → s'.pairs.entries.Perm s.pairs.entries →
      parse s'.render = .ok s' ∧ ∀ key, s'.pairs.get? key = s.pairs.get? key) := by
  refine ⟨⟨?_, ?_⟩, fun s pieces ↦ means_of_parse, fun e ↦ parse_eq_error_iff, ?_⟩
  · rintro ⟨s, hs⟩
    obtain ⟨pieces, hlists, hadd⟩ := parse_eq_ok_iff.mp hs
    exact ⟨pieces, hlists, exists_addPieces_iff.mp ⟨s.pairs, hadd⟩⟩
  · rintro ⟨pieces, hlists, hpieces⟩
    obtain ⟨t, hadd⟩ := exists_addPieces_iff.mpr hpieces
    exact ⟨⟨t⟩, parse_eq_ok_iff.mpr ⟨pieces, hlists, hadd⟩⟩
  · intro s s' hplain hperm
    exact ⟨parse_render (hplain.of_perm hperm), get?_eq_of_perm hperm⟩

/-- A repeated key, blank around it, and an equals sign in a value. -/
theorem label_grammar_repeated_key :
    (∃ s, parse "label: a =1,b=x=y,a=2" = .ok s ∧
      (s.pairs.get? "a" = some "2" ∧ s.pairs.get? "b" = some "x=y") ∧
      s.matchesTags (.ofList [("a", "1"), ("b", "x=y")]) = false) ∧
    parse "label:a=b,,c=d" = .error (.invalidSelectorPair "label:a=b,,c=d" "") ∧
    parse (render ⟨.ofList [("b", "x=y"), ("a", "2")]⟩) =
      .ok ⟨.ofList [("b", "x=y"), ("a", "2")]⟩ := by
  have hrepeated : Lists "label: a =1,b=x=y,a=2" [" a =1".toList, "b=x=y".toList, "a=2".toList] :=
    lists_iff.mpr ⟨by decide, by decide⟩
  have hearlier : Gives " a =1".toList "a" "1" := pair?_eq_some_iff.mp (by decide)
  have hb : Gives "b=x=y".toList "b" "x=y" := pair?_eq_some_iff.mp (by decide)
  have ha : Gives "a=2".toList "a" "2" := pair?_eq_some_iff.mp (by decide)
  have hpairs : ∀ piece ∈ [" a =1".toList, "b=x=y".toList, "a=2".toList], IsPair piece := by
    simp only [List.forall_mem_cons, isPair_iff]
    exact ⟨⟨_, _, hearlier⟩, ⟨_, _, hb⟩, ⟨_, _, ha⟩, by simp⟩
  have hempty : Lists "label:a=b,,c=d" (["a=b".toList] ++ [] :: ["c=d".toList]) :=
    lists_iff.mpr ⟨by decide, by decide⟩
  have hfirst : Gives "a=b".toList "a" "b" := pair?_eq_some_iff.mp (by decide)
  refine ⟨?_, ?_, ?_⟩
  · obtain ⟨s, hs⟩ := (label_grammar "label: a =1,b=x=y,a=2").1.mpr ⟨_, hrepeated, hpairs⟩
    have hmeans := (label_grammar "label: a =1,b=x=y,a=2").2.1 s _ hs hrepeated
    have hlast : LastGives [" a =1".toList, "b=x=y".toList, "a=2".toList] "a" "2" :=
      ⟨[_, _], _, [], rfl, ha, by simp⟩
    have hother : LastGives [" a =1".toList, "b=x=y".toList, "a=2".toList] "b" "x=y" := by
      refine ⟨[_], _, [_], rfl, hb, fun other hmem v hgives ↦ ?_⟩
      obtain rfl := List.mem_singleton.mp hmem
      exact absurd (hgives.unique ha).1 (by decide)
    refine ⟨s, hs, ⟨(hmeans.pairs _ _).mpr hlast, (hmeans.pairs _ _).mpr hother⟩, ?_⟩
    refine Bool.eq_false_iff.mpr fun hmatches ↦ ?_
    exact absurd ((hmeans.selects _).mp hmatches "a" "2" hlast) (by decide)
  · refine ((label_grammar "label:a=b,,c=d").2.2.1 _).mpr (.piece hempty ?_ ?_)
    · simpa using isPair_iff.mpr ⟨_, _, hfirst⟩
    · exact pair?_eq_none_iff.mp (by decide)
  · refine ((label_grammar "").2.2.2 ⟨.ofList [("a", "2"), ("b", "x=y")]⟩ _ ?_ ?_).1
    · have hget : ∀ key value, (Table.ofList [("a", "2"), ("b", "x=y")]).get? key = some value →
          key = "a" ∧ value = "2" ∨ key = "b" ∧ value = "x=y" := by
        intro key value hsome
        have hentry : (key, value) ∈ [("a", "2"), ("b", "x=y")] :=
          (Table.get?_eq_some_iff ..).mp hsome
        simpa using hentry
      have htight : ∀ t : List Char, trim t = t → Tight t := fun t ht ↦ (trim_eq_iff.mp ht).tight
      refine ⟨by decide, fun key value h ↦ ?_, fun key value h ↦ ?_, fun key value h ↦ ?_⟩
      · rcases hget key value h with ⟨rfl, rfl⟩ | ⟨rfl, rfl⟩ <;> decide
      · rcases hget key value h with ⟨rfl, rfl⟩ | ⟨rfl, rfl⟩
        · exact ⟨htight _ (by decide), htight _ (by decide)⟩
        · exact ⟨htight _ (by decide), htight _ (by decide)⟩
      · rcases hget key value h with ⟨rfl, rfl⟩ | ⟨rfl, rfl⟩ <;> decide
    · decide

end NodeFleet.Selector
