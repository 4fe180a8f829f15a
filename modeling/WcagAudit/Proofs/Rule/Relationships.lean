import WcagAudit.Proofs.Pattern.Setting
import WcagAudit.Proofs.Rule.Sightings

/-! References from one element to the id of another.  Ids and references are collected by two searches of the
whole text, each of which sees no more of a name than its end: the one for references wants it to begin there or
behind a hyphen, the one for ids does not ask.  So both take longer names for those that are meant. -/

namespace WcagAudit

namespace Aria

open Pattern

def identifiers : SettingSearch where
  opening := exactly "id="
  value := unquoted
  key _ k := k == "id".toList
  captured _ := []
  opening_sound h := by
    obtain ⟨rest, split, rfl⟩ := reads_exactly.1 h
    exact ⟨"id".toList, split, beq_self_eq_true _, (List.append_nil _).symm⟩
  opening_complete {t k rest} h key := by
    obtain rfl := eq_of_beq key
    exact ⟨_, reads_exactly.2 ⟨rest, h, rfl⟩, rfl⟩
  value_sound h := h
  value_complete {t v rest} h _ plain := ⟨v, rest, h, plain, rfl⟩
  filled := Bool.false_ne_true
  apart key := by
    obtain rfl := eq_of_beq key
    simp

theorem pattern_identifiers : identifiers.pattern = idAttribute := rfl

theorem isBoundary_of_isWordChar {before after : Char} (h : isWordChar after) :
    isBoundary before after ↔ ¬isWordChar before := by
  rw [isBoundary, h]
  cases isWordChar before <;> decide

theorem reads_relationship {t u : Trail} : (anyName relationshipAttributes).Reads t u ↔
    ∃ k rest, t.rest = k ++ rest ∧ k.map foldLetter ∈ relationshipAttributes.map (·.toList) ∧
      u = t.past k rest := by
  have small : ∀ name ∈ relationshipAttributes, name.toList.map foldLetter = name.toList := by decide
  simp only [anyName, reads_firstOf, List.mem_map, exists_exists_and_eq_and, reads_ignoringCase]
  constructor
  · rintro ⟨name, listed, k, rest, h, same, rfl⟩
    exact ⟨k, rest, h, ⟨name, listed, (same.trans (small name listed)).symm⟩, rfl⟩
  · rintro ⟨k, rest, h, ⟨name, listed, same⟩, rfl⟩
    exact ⟨name, listed, k, rest, h, (same.symm.trans (small name listed).symm), rfl⟩

theorem apart_relationship {k : List Char} (h : k.map foldLetter ∈ relationshipAttributes.map (·.toList)) :
    (∀ rest, isWordChar ((k ++ rest).headD ' ')) ∧ ∀ d ∈ ['=', '"', ' ', '>'], d ∉ k := by
  have opens : ∀ w ∈ relationshipAttributes.map (·.toList), w.head?.any Char.isAlpha := by decide
  have plain : ∀ w ∈ relationshipAttributes.map (·.toList),
      ['=', '"', ' ', '>'].all fun d => foldLetter d ∉ w := by
    decide
  refine ⟨fun rest => ?_, fun d hd inside => ?_⟩
  · cases k with
    | nil => exact absurd h (by decide)
    | cons c k => exact isWordChar_of_foldLetter (by simpa using opens _ h)
  · exact of_decide_eq_true (List.all_eq_true.1 (plain _ h) d hd) (List.mem_map_of_mem inside)

def references : SettingSearch where
  opening := boundary ++ part (anyName relationshipAttributes) ++ char '='
  value := someUnquoted
  key before k := !isWordChar before && k.map foldLetter ∈ relationshipAttributes.map (·.toList)
  captured k := [k]
  opening_sound {t u} h := by
    simp only [reads_append] at h
    obtain ⟨_, ⟨_, ⟨edge, rfl⟩, v, hv, rfl⟩, c, rest, hrest, equals, rfl⟩ := h
    obtain ⟨k, rest', split, listed, rfl⟩ := reads_relationship.1 hv
    obtain rfl := eq_of_beq equals
    rw [Trail.rest_capture, Trail.rest_past] at hrest
    subst hrest
    rw [split, isBoundary_of_isWordChar ((apart_relationship listed).1 _)] at edge
    refine ⟨k, split, ?_, Trail.text_capture split rfl⟩
    simp only [Bool.and_eq_true, Bool.not_eq_true', decide_eq_true_eq]
    exact ⟨Bool.eq_false_iff.2 edge, listed⟩
  opening_complete {t k rest} h key := by
    simp only [Bool.and_eq_true, Bool.not_eq_true', decide_eq_true_eq] at key
    have read := reads_relationship.2 ⟨k, '=' :: rest, h, key.2, rfl⟩
    have edge : isBoundary t.before (t.rest.headD ' ') := by
      rw [h, isBoundary_of_isWordChar ((apart_relationship key.2).1 _), key.1]
      decide
    simp only [reads_append]
    exact ⟨_, ⟨_, ⟨_, ⟨edge, rfl⟩, _, read, rfl⟩, '=', rest, rfl, rfl, rfl⟩, rfl⟩
  value_sound {t u} h := by
    obtain ⟨_, ⟨c, cs, hc, first, rfl⟩, v, rest, rfl, plain, rfl⟩ := reads_append.1 h
    refine ⟨c :: v, rest, hc, ?_, Trail.advance_past ..⟩
    rw [List.all_cons, Bool.and_eq_true]
    exact ⟨first, plain⟩
  value_complete {t v rest} h filled plain := by
    cases v with
    | nil => exact absurd rfl filled
    | cons c v =>
      rw [List.all_cons, Bool.and_eq_true] at plain
      exact reads_append.2
        ⟨_, ⟨c, v ++ rest, h, plain.1, rfl⟩, v, rest, rfl, plain.2, (Trail.advance_past ..).symm⟩
  filled {before} := by
    have nameless : [] ∉ relationshipAttributes.map (·.toList) := by decide
    simp only [List.map_nil, nameless, decide_false, Bool.and_false, Bool.false_eq_true, not_false_eq_true]
  apart {before k} key := by
    simp only [Bool.and_eq_true, decide_eq_true_eq] at key
    exact (apart_relationship key.2).2

theorem pattern_references : references.pattern = reference := rfl

end Aria

structure Setting where
  name : List Char
  value : List Char
  letters : name.all fun c => c.isLower || c == '-' := by decide
  plain : value.all (· ∉ ['"', '\x27', '<', '>', '=']) := by decide
  filled : value ≠ [] := by decide

structure Carrier where
  name : List Char
  settings : List Setting
  plain : name.all (· ∉ ['"', '\x27', '<', '>', '=']) := by decide

namespace Setting

variable (a : Setting)

def text : List Char := a.name ++ '=' :: '"' :: (a.value ++ ['"'])

theorem isLower_or : ∀ c ∈ a.name, c.isLower ∨ c = '-' := fun c hc => by
  simpa using List.all_eq_true.1 a.letters c hc

theorem not_mem_value {c : Char} (hc : c ∈ ['"', '\x27', '<', '>', '=']) : c ∉ a.value := fun inside => by
  simpa [hc] using List.all_eq_true.1 a.plain c inside

theorem equals_not_mem_name : '=' ∉ a.name := fun h =>
  (a.isLower_or _ h).elim (by decide) (by decide)

theorem unquoted_value : a.value.all (!Pattern.isQuote ·) :=
  List.all_eq_true.2 fun c hc => by
    have plain := List.all_eq_true.1 a.plain c hc
    simp_all [Pattern.isQuote]

end Setting

namespace Carrier

def text (e : Carrier) : List Char := '<' :: (e.name ++ e.settings.flatMap (' ' :: ·.text)) ++ ['>']

/-- Tags one behind the other. -/
def page (es : List Carrier) : List Char := es.flatMap text

end Carrier

namespace Pattern.SettingSearch

open Carrier

variable (s : SettingSearch)

theorem matchesFrom_settings (as : List Setting) {y : List Char} (hy : '=' ∉ y) (before : Char)
    (rest : List Char) :
    s.pattern.matchesFrom 0 before (y ++ (as.flatMap (' ' :: ·.text) ++ '>' :: rest)) =
      (as.filterMap fun a => s.hit? a.name a.value) ++ s.pattern.matchesFrom 0 '>' rest := by
  induction as generalizing y before with
  | nil => exact matchesFrom_end hy (by decide)
  | cons a as ih =>
    have split : y ++ ((a :: as).flatMap (' ' :: ·.text) ++ '>' :: rest) =
        y ++ ' ' :: (a.name ++ '=' :: '"' :: (a.value ++
          '"' :: ([] ++ (as.flatMap (' ' :: ·.text) ++ '>' :: rest)))) := by
      simp [Setting.text]
    rw [split, matchesFrom_end hy (by decide),
      matchesFrom_setting a.equals_not_mem_name a.filled a.unquoted_value (a.not_mem_value (by decide)),
      ih List.not_mem_nil, List.filterMap_cons]
    cases s.hit? a.name a.value <;> rfl

theorem matchesIn_page (es : List Carrier) : s.pattern.matchesIn (page es) =
    (es.flatMap settings).filterMap fun a => s.hit? a.name a.value := by
  rw [matchesIn]
  generalize ' ' = before
  induction es generalizing before with
  | nil => rfl
  | cons e es ih =>
    have opened : '=' ∉ '<' :: e.name := by
      have plain := List.all_eq_true.1 e.plain
      rw [List.mem_cons, not_or]
      exact ⟨by decide, fun h => absurd (plain _ h) (by decide)⟩
    have split : page (e :: es) =
        '<' :: e.name ++ (e.settings.flatMap (' ' :: ·.text) ++ '>' :: page es) := by
      simp [page, text]
    rw [split, s.matchesFrom_settings e.settings opened, ih, List.flatMap_cons, List.filterMap_append]

end Pattern.SettingSearch

namespace Setting

open Aria

variable (a : Setting)

def Identifies : Prop := "id".toList <:+ a.name

def Refers : Prop := ∃ key ∈ relationshipAttributes, '-' :: key.toList <:+ '-' :: a.name

instance : Decidable a.Identifies := by
  unfold Identifies
  infer_instance

instance : Decidable a.Refers := by
  unfold Refers
  infer_instance

theorem isSome_identifiers_iff : (identifiers.keyIn ' ' a.name).isSome ↔ a.Identifies := by
  rw [Pattern.SettingSearch.isSome_keyIn_iff]
  constructor
  · rintro ⟨u, k, split, key⟩
    exact ⟨u, eq_of_beq key ▸ split.symm⟩
  · rintro ⟨u, split⟩
    exact ⟨u, _, split.symm, beq_self_eq_true _⟩

theorem refers_of_mem {a : Setting} (h : a.name ∈ relationshipAttributes.map (·.toList)) : a.Refers := by
  obtain ⟨key, listed, name⟩ := List.mem_map.1 h
  exact ⟨key, listed, name ▸ List.suffix_rfl⟩

theorem map_foldLetter {k : List Char} (h : ∀ c ∈ k, c.isLower ∨ c = '-') : k.map foldLetter = k := by
  have small : ∀ c ∈ k, foldLetter c = id c := by
    intro c hc
    rcases h c hc with lower | rfl
    · exact foldLetter_of_isLower lower
    · rfl
  rw [List.map_congr_left small, List.map_id]

theorem suffix_name_iff {key : List Char} : '-' :: key <:+ '-' :: a.name ↔
    ∃ u, a.name = u ++ key ∧ ¬isWordChar (u.getLastD ' ') := by
  constructor
  · rintro ⟨z, hz⟩
    cases z with
    | nil => exact ⟨[], (List.cons_eq_cons.1 hz).2.symm, by decide⟩
    | cons c z =>
      refine ⟨z ++ ['-'], by simpa using (List.cons_eq_cons.1 hz).2.symm, ?_⟩
      rw [List.getLastD_concat]
      decide
  · rintro ⟨u, name, apart⟩
    rw [name]
    rcases List.eq_nil_or_concat u with rfl | ⟨y, d, rfl⟩
    · exact List.suffix_rfl
    · rw [List.concat_eq_append] at name apart ⊢
      rw [List.getLastD_concat] at apart
      rcases a.isLower_or d (by simp [name]) with lower | rfl
      · have letter : d.isAlpha := (Bool.or_eq_true ..).mpr (.inr lower)
        exact absurd (isWordChar_of_isAlpha letter) apart
      · exact ⟨'-' :: y, by simp⟩

theorem isSome_references_iff : (references.keyIn ' ' a.name).isSome ↔ a.Refers := by
  have whole {u k : List Char} (name : a.name = u ++ k) : k.map foldLetter = k :=
    map_foldLetter fun c hc => a.isLower_or c (by simp [name, hc])
  simp only [Pattern.SettingSearch.isSome_keyIn_iff, Refers, suffix_name_iff]
  constructor
  · rintro ⟨u, k, name, key⟩
    simp only [references, Bool.and_eq_true, Bool.not_eq_true', decide_eq_true_eq, List.mem_map,
      whole name] at key
    obtain ⟨apart, w, listed, rfl⟩ := key
    exact ⟨w, listed, u, name, Bool.eq_false_iff.1 apart⟩
  · rintro ⟨w, listed, u, name, apart⟩
    refine ⟨u, w.toList, name, ?_⟩
    simp only [references, Bool.and_eq_true, Bool.not_eq_true', decide_eq_true_eq, whole name]
    exact ⟨Bool.eq_false_iff.2 apart, List.mem_map_of_mem listed⟩

end Setting

namespace Rule

open Aria Carrier Setting

variable (es : List Carrier)

theorem mem_ids_iff {target : List Char} : target ∈ (idAttribute.matchesIn (page es)).map (·.part 0) ↔
    ∃ b ∈ es.flatMap settings, b.Identifies ∧ b.value = target := by
  rw [← pattern_identifiers, identifiers.matchesIn_page]
  simp only [List.mem_map, List.mem_filterMap, Pattern.SettingSearch.hit?, Option.map_eq_some_iff]
  constructor
  · rintro ⟨_, ⟨b, member, k, key, rfl⟩, rfl⟩
    exact ⟨b, member, b.isSome_identifiers_iff.1 (Option.isSome_of_eq_some key), rfl⟩
  · rintro ⟨b, member, named, rfl⟩
    obtain ⟨k, key⟩ := Option.isSome_iff_exists.1 (b.isSome_identifiers_iff.2 named)
    exact ⟨_, ⟨b, member, k, key, rfl⟩, rfl⟩

theorem passes_ariaRelationships_iff : ariaRelationships.passes (page es) ↔
    ∀ a ∈ es.flatMap settings, a.Refers →
      ∃ b ∈ es.flatMap settings, b.Identifies ∧ b.value = a.value := by
  simp only [passes_eq, sightings, met, Sighting.allAccepted, List.all_map, List.all_eq_true,
    Function.comp_apply, List.contains_eq_mem, decide_eq_true_eq, mem_ids_iff]
  rw [← pattern_references, references.matchesIn_page]
  simp only [List.mem_filterMap, Pattern.SettingSearch.hit?, Option.map_eq_some_iff]
  constructor
  · intro h a member refers
    obtain ⟨k, key⟩ := Option.isSome_iff_exists.1 (a.isSome_references_iff.2 refers)
    exact h _ ⟨a, member, k, key, rfl⟩
  · rintro h _ ⟨a, member, k, key, rfl⟩
    exact h a member (a.isSome_references_iff.1 (Option.isSome_of_eq_some key))

/-- References resolve if each has an id with its value.  Any name that ends in a relationship behind a hyphen
refers, and any name that ends in `id` identifies: where no attribute has such a longer name, what counts are
the attributes of these very names. -/
theorem relationships_resolve :
    (ariaRelationships.passes (page es) ↔ ∀ a ∈ es.flatMap settings, a.Refers →
      ∃ b ∈ es.flatMap settings, b.Identifies ∧ b.value = a.value) ∧
    ((∀ a ∈ es.flatMap settings, a.Refers → a.name ∈ relationshipAttributes.map (·.toList)) →
      (∀ b ∈ es.flatMap settings, b.Identifies → b.name = "id".toList) →
      (ariaRelationships.passes (page es) ↔
        ∀ a ∈ es.flatMap settings, a.name ∈ relationshipAttributes.map (·.toList) →
          ∃ b ∈ es.flatMap settings, b.name = "id".toList ∧ b.value = a.value)) := by
  refine ⟨passes_ariaRelationships_iff es, fun referring identifying => ?_⟩
  rw [passes_ariaRelationships_iff]
  refine forall₂_congr fun a member => imp_congr ⟨referring a member, refers_of_mem⟩ ?_
  refine exists_congr fun b => and_congr_right fun member' => and_congr_left fun _ => ?_
  exact ⟨identifying b member', fun name => ⟨[], name.symm⟩⟩

theorem menu_resolved :
    let es : List Carrier :=
      [{ name := "ul".toList, settings := [{ name := "class".toList, value := "grid wide".toList },
          { name := "id".toList, value := "menu".toList }] },
        { name := "/ul".toList, settings := [] },
        { name := "button".toList, settings := [{ name := "aria-owns".toList, value := "menu".toList }] }]
    (∀ a ∈ es.flatMap settings, a.Refers → a.name ∈ relationshipAttributes.map (·.toList)) ∧
      (∀ b ∈ es.flatMap settings, b.Identifies → b.name = "id".toList) ∧
      ariaRelationships.passes (page es) := by
  intro es
  have referring :
      ∀ a ∈ es.flatMap settings, a.Refers → a.name ∈ relationshipAttributes.map (·.toList) := by
    decide
  have identifying : ∀ b ∈ es.flatMap settings, b.Identifies → b.name = "id".toList := by
    decide
  exact ⟨referring, identifying, ((relationships_resolve es).2 referring identifying).2 (by decide)⟩

theorem longer_names_confused :
    let dangling : List Carrier :=
      [{ name := "i".toList, settings := [{ name := "data-id".toList, value := "x".toList }] },
        { name := "a".toList, settings := [{ name := "aria-owns".toList, value := "x".toList }] }]
    let silent : List Carrier :=
      [{ name := "a".toList, settings := [{ name := "data-aria-owns".toList, value := "x".toList }] }]
    ((∃ a ∈ dangling.flatMap settings, a.name = "aria-owns".toList) ∧
        ∀ b ∈ dangling.flatMap settings, b.name ≠ "id".toList) ∧
      ariaRelationships.passes (page dangling) ∧
      (∀ a ∈ silent.flatMap settings, a.name ∉ relationshipAttributes.map (·.toList)) ∧
      ariaRelationships.passes (page silent) = false := by
  decide +kernel

end Rule

end WcagAudit
