import WcagAudit.Proofs.Rule.Attributes

namespace WcagAudit

namespace Pattern

theorem occursIn_boundary_iff {p : Pattern} {words : List (List Char)} (hp : p.Spells words)
    (letters : ∀ word ∈ words, word.head?.any Char.isAlpha) {t : List Char} :
    (boundary ++ p).occursIn t ↔ Occurs words (fun c => ¬isWordChar c) (fun _ => True) t := by
  have edge {x : List Char} (listed : x.map foldLetter ∈ words) (before : Char) (v : List Char) :
      isBoundary before ((x ++ v).headD ' ') ↔ ¬isWordChar before := by
    obtain ⟨d, hd, letter⟩ := (Option.any_eq_true ..).1 (letters _ listed)
    cases x with
    | nil => cases hd
    | cons c x =>
      obtain rfl : foldLetter c = d := Option.some.inj hd
      have word : isWordChar c := isWordChar_of_foldLetter letter
      rw [List.cons_append, List.headD_cons, isBoundary, word]
      cases isWordChar before <;> decide
  rw [occursIn_iff]
  simp only [reads_append, Reads]
  constructor
  · rintro ⟨u, v, w, rfl, _, ⟨opens, rfl⟩, spelled⟩
    obtain ⟨x, rest, rfl, listed, rfl⟩ := (hp ..).1 spelled
    exact ⟨u, x, rest, rfl, listed, (edge listed ..).1 opens, trivial⟩
  · rintro ⟨u, x, v, rfl, listed, opens, -⟩
    exact ⟨u, x ++ v, _, rfl, _, ⟨(edge listed ..).2 opens, rfl⟩, (hp ..).2 ⟨x, v, rfl, listed, rfl⟩⟩

end Pattern

namespace Aria

open Pattern

theorem mentionsRequired_iff {t : List Char} : MentionsRequired t ↔
    Occurs ["required".toList] (fun _ => True) (fun c => ¬isWordChar c) t := by
  have ends (v : List Char) : ¬isWordChar (v.headD '>') ↔ ¬isWordChar (v.headD ' ') := by
    cases v with
    | nil => exact iff_of_true (by decide) (by decide)
    | cons c v => exact Iff.rfl
  have behind {x : List Char} (same : x.map foldLetter = "required".toList) (v : List Char) :
      (x ++ v).drop "required".length = v := by
    rw [← String.length_toList, ← same, List.length_map, List.drop_left]
  constructor
  · rintro ⟨w, ⟨u, rfl⟩, opens, ended⟩
    obtain ⟨x, ⟨v, rfl⟩, same⟩ := List.prefix_map_iff.1 opens
    rw [behind same.symm, ends] at ended
    exact ⟨u, x, v, rfl, List.mem_singleton.2 same.symm, trivial, ended⟩
  · rintro ⟨u, x, v, rfl, listed, -, ended⟩
    have same := List.mem_singleton.1 listed
    refine ⟨x ++ v, List.suffix_append u _, ?_, ?_⟩
    · rw [List.map_append, same]
      exact List.prefix_append _ _
    · rwa [behind same, ends]

theorem splitsAt_mentionsRequired {d : Char} (hd : d ∈ [' ', '=', '"']) :
    SplitsAt MentionsRequired d := by
  intro x y
  have apart : foldLetter d = d ∧ ¬isWordChar d ∧ d ∉ "required".toList := by
    simp only [List.mem_cons, List.not_mem_nil, or_false] at hd
    rcases hd with rfl | rfl | rfl <;> decide
  simp only [mentionsRequired_iff]
  refine occurs_append_cons_iff (fun word listed => ?_) ⟨trivial, trivial⟩
    ⟨apart.2.1, by decide⟩ x y
  rw [List.mem_singleton.1 listed, apart.1]
  exact apart.2.2

theorem map_foldLetter_eq_word_iff {s : String} (small : s.toList.map foldLetter = s.toList)
    (other : s.toList.all (foldLetter · ∉ ['s', 'k'])) {w : List Char} :
    w.map foldLetter = s.toList ↔ sameAscii w s.toList := by
  rw [← map_foldLetter_eq_iff other, small]

def markWords : List (List Char) :=
  ['"', '\x27'].flatMap fun q => ['"', '\x27'].map fun q' =>
    "aria-required".toList ++ '=' :: q :: ("true".toList ++ [q'])

theorem foldLetter_eq_quote_iff {c q : Char} (hq : q ∈ ['"', '\x27']) : foldLetter c = q ↔ c = q := by
  have symbol : ¬q.isAlpha ∧ foldLetter q = q := by
    simp only [List.mem_cons, List.not_mem_nil, or_false] at hq
    rcases hq with rfl | rfl <;> decide
  exact foldLetter_eq_iff_of_not_alpha symbol.1 symbol.2

theorem fold_mem_markWords_iff {x : List Char} : x.map foldLetter ∈ markWords ↔
    ∃ k q m q', x = k ++ '=' :: q :: (m ++ [q']) ∧ q ∈ ['"', '\x27'] ∧ q' ∈ ['"', '\x27'] ∧
      sameAscii k "aria-required".toList ∧ sameAscii m "true".toList := by
  simp only [markWords, List.mem_flatMap, List.mem_map]
  constructor
  · rintro ⟨q, hq, q', hq', spelled⟩
    obtain ⟨k, y, rfl, named, hy⟩ := List.map_eq_append_iff.1 spelled.symm
    obtain ⟨e, y, rfl, equals, hy⟩ := List.map_eq_cons_iff.1 hy
    obtain ⟨c, y, rfl, opening, hy⟩ := List.map_eq_cons_iff.1 hy
    obtain ⟨m, y, rfl, valued, hy⟩ := List.map_eq_append_iff.1 hy
    obtain ⟨c', rfl, closing⟩ := List.map_eq_singleton_iff.1 hy
    obtain rfl := (foldLetter_eq_iff_of_not_alpha (by decide) rfl).1 equals
    obtain rfl := (foldLetter_eq_quote_iff hq).1 opening
    obtain rfl := (foldLetter_eq_quote_iff hq').1 closing
    rw [map_foldLetter_eq_word_iff (by decide) (by decide)] at named valued
    exact ⟨k, c, m, c', rfl, hq, hq', named, valued⟩
  · rintro ⟨k, q, m, q', rfl, hq, hq', named, valued⟩
    rw [← map_foldLetter_eq_word_iff (by decide) (by decide)] at named valued
    refine ⟨q, hq, q', hq', ?_⟩
    rw [List.map_append, List.map_cons, List.map_cons, List.map_append, List.map_singleton, named, valued,
      (foldLetter_eq_quote_iff hq).2 rfl, (foldLetter_eq_quote_iff hq').2 rfl]
    rfl

theorem spells_markWords : (attributeIs "aria-required" ["true"]).Spells markWords :=
  (((spells_ignoringCase "aria-required").append spells_equals).append spells_quote).append
    (spells_ignoringCase "true") |>.append spells_quote

def Marked (t : List Char) : Prop := Occurs markWords (fun c => ¬isWordChar c) (fun _ => True) t

theorem occursIn_requiredMark_iff {t : List Char} : requiredMark.occursIn t ↔ Marked t :=
  occursIn_boundary_iff spells_markWords (by decide)

theorem equals_mem_of_marked {t : List Char} (h : Marked t) : '=' ∈ t := by
  obtain ⟨u, x, v, rfl, listed, -, -⟩ := h
  have equals : ∀ word ∈ markWords, '=' ∈ word := by decide
  obtain ⟨c, hc, folds⟩ := List.mem_map.1 (equals _ listed)
  obtain rfl := (foldLetter_eq_iff_of_not_alpha (by decide) rfl).1 folds
  simp [hc]

theorem splitsAt_marked {d : Char} (hd : d ∈ [' ', '>']) : SplitsAt Marked d := by
  have apart : ¬isWordChar d ∧ ∀ word ∈ markWords, foldLetter d ∉ word := by
    simp only [List.mem_cons, List.not_mem_nil, or_false] at hd
    rcases hd with rfl | rfl <;> decide
  exact occurs_append_cons_iff apart.2 ⟨apart.1, by decide⟩ ⟨trivial, trivial⟩

end Aria

namespace Attribute

open Aria

variable (a : Attribute)

def Is (name : String) : Prop := sameAscii a.name name.toList

def Sets (name value : String) : Prop := a.Is name ∧ ∃ v ∈ a.value, sameAscii v value.toList

instance (name : String) : Decidable (a.Is name) := by
  unfold Is
  infer_instance

instance (name value : String) : Decidable (a.Sets name value) := by
  unfold Sets
  infer_instance

def Mentions : Prop := MentionsRequired a.name ∨ ∃ v ∈ a.value, MentionsRequired v

/-- The name ends in `aria-required`, at the beginning or behind a hyphen, and the value is `true`. -/
def Marks : Prop :=
  "-aria-required".toList <:+ '-' :: a.name.map Char.toLower ∧ ∃ v ∈ a.value, sameAscii v "true".toList

instance : Decidable a.Mentions := by
  unfold Mentions
  infer_instance

instance : Decidable a.Marks := by
  unfold Marks
  infer_instance

variable {a}

theorem Is.mentions (h : a.Is "required") : a.Mentions := by
  refine .inl (mentionsRequired_iff.2 ⟨[], a.name, [], by simp, ?_, trivial, by decide⟩)
  rw [List.mem_singleton, map_foldLetter_eq_word_iff (by decide) (by decide)]
  exact h

theorem Sets.marks (h : a.Sets "aria-required" "true") : a.Marks := by
  refine ⟨?_, h.2⟩
  rw [eq_of_beq h.1]
  exact List.suffix_rfl

theorem suffix_name_iff : "-aria-required".toList <:+ '-' :: a.name.map Char.toLower ↔
    ∃ u k, a.name = u ++ k ∧ sameAscii k "aria-required".toList ∧ ¬isWordChar (u.getLastD ' ') := by
  have spelled {k : List Char} :
      sameAscii k "aria-required".toList ↔ k.map Char.toLower = "aria-required".toList := beq_iff_eq
  have mark : "-aria-required".toList = '-' :: "aria-required".toList := rfl
  rw [mark]
  constructor
  · rintro ⟨z, hz⟩
    cases z with
    | nil => exact ⟨[], a.name, rfl, spelled.2 (List.cons_eq_cons.1 hz).2.symm, by decide⟩
    | cons c z =>
      have lower := (List.cons_eq_cons.1 hz).2
      obtain ⟨y, k, name, -, hk⟩ := List.map_eq_append_iff.1 lower.symm
      obtain ⟨d, k, rfl, hd, same⟩ := List.map_eq_cons_iff.1 hk
      obtain rfl := (toLower_eq_iff (by decide)).1 hd
      refine ⟨y ++ ['-'], k, by simp [name], spelled.2 same, ?_⟩
      rw [List.getLastD_concat]
      decide
  · rintro ⟨u, k, name, same, apart⟩
    rw [name, List.map_append, spelled.1 same]
    rcases List.eq_nil_or_concat u with rfl | ⟨y, d, rfl⟩
    · exact List.suffix_rfl
    · rw [List.concat_eq_append] at name apart ⊢
      rw [List.getLastD_concat] at apart
      rcases a.isAlpha_or d (by simp [name]) with letter | rfl
      · exact absurd (isWordChar_of_isAlpha letter) apart
      · exact ⟨'-' :: y.map Char.toLower, by simp⟩

/-- A name, an equals sign and something in quotes can only stand in the text of an attribute as the end of
its name and the whole of its value. -/
theorem text_split {u k m w : List Char} {q q' : Char} (hq : q ∈ ['"', '\x27']) (hq' : q' ∈ ['"', '\x27'])
    (hk : '"' ∉ k) (h : a.text = u ++ (k ++ '=' :: q :: (m ++ q' :: w))) :
    a.name = u ++ k ∧ m ∈ a.value := by
  have outside {c : Char} (hc : c ∈ ['"', '\x27']) : c ∉ a.name := by
    simp only [List.mem_cons, List.not_mem_nil, or_false] at hc
    rcases hc with rfl | rfl <;> exact a.not_mem_name (by decide) (by decide)
  rw [text] at h
  cases hv : a.value with
  | none =>
    rw [hv, Option.elim_none, List.append_nil] at h
    exact absurd (h ▸ by simp) (outside hq)
  | some v =>
    have plain {c : Char} (hc : c ∈ ['"', '\x27']) : c ∉ v := fun inside => by
      refine a.not_mem_value ?_ v hv inside
      simp only [List.mem_cons, List.not_mem_nil, or_false] at hc ⊢
      tauto
    rw [hv, Option.elim_some] at h
    have front : '"' ∉ k ++ ['='] := by simp [hk]
    have whole : u ++ (k ++ ['='] ++ q :: (m ++ q' :: w)) = a.name ++ ['='] ++ '"' :: (v ++ ['"']) := by
      simpa using h.symm
    -- The first quote opens the value, so what stands in front of the one has to be what stands in
    -- front of the other.
    rcases split_at whole front with ⟨z, before, behind⟩ | ⟨z, -, behind⟩
    · cases z with
      | nil =>
        rw [List.append_nil, ← List.append_assoc] at before
        obtain ⟨-, rest⟩ := List.cons_eq_cons.1 behind
        obtain ⟨rfl, -⟩ := append_cons_eq_concat rest (plain hq')
        exact ⟨List.append_cancel_right before, rfl⟩
      | cons c z =>
        obtain ⟨rfl, -⟩ := List.cons_eq_cons.1 behind
        have inside : q ∈ a.name ++ ['='] := before ▸ by simp
        rcases List.mem_append.1 inside with inside | equals
        · exact absurd inside (outside hq)
        · obtain rfl := List.mem_singleton.1 equals
          exact absurd hq (by decide)
    · rw [← List.append_assoc] at behind
      obtain ⟨-, ended⟩ := append_cons_eq_concat behind.symm (plain hq)
      cases List.append_eq_nil_iff.1 ended |>.2

theorem marked_text_iff : Marked a.text ↔ a.Marks := by
  constructor
  · rintro ⟨u, x, w, whole, listed, apart, -⟩
    obtain ⟨k, q, m, q', rfl, hq, hq', named, valued⟩ := fold_mem_markWords_iff.1 listed
    have unquoted : '"' ∉ k := fun h => by
      have lower : Char.toLower '"' ∈ "aria-required".toList.map Char.toLower :=
        eq_of_beq named ▸ List.mem_map_of_mem h
      exact absurd lower (by decide)
    obtain ⟨name, value⟩ := text_split (w := w) hq hq' unquoted (by simpa using whole)
    exact ⟨suffix_name_iff.2 ⟨u, k, name, named, apart⟩, m, value, valued⟩
  · rintro ⟨ends, v, value, valued⟩
    obtain ⟨u, k, name, named, apart⟩ := suffix_name_iff.1 ends
    refine ⟨u, k ++ '=' :: '"' :: (v ++ ['"']), [], ?_, ?_, apart, trivial⟩
    · simp [text, name, Option.mem_def.1 value]
    · exact fold_mem_markWords_iff.2 ⟨k, '"', v, '"', rfl, by simp, by simp, named, valued⟩

variable (as : List Attribute)

theorem marked_tag_iff : Marked (tag "input" as) ↔ ∃ a ∈ as, a.Marks := by
  have unmarked {t : List Char} (h : '=' ∉ t) : ¬Marked t := mt equals_mem_of_marked h
  have split : tag "input" as = "<input".toList ++ ' ' :: (listText as ++ '>' :: []) := by
    simp [tag, inside, tagText]
  rw [split, splitsAt_marked (by decide), splitsAt_marked (by decide),
    listText_iff (unmarked (by simp)) (splitsAt_marked (by decide))]
  simp [unmarked, marked_text_iff]

theorem mentionsRequired_listText_iff :
    MentionsRequired (' ' :: listText as) ↔ ∃ a ∈ as, a.Mentions := by
  have nil : ¬MentionsRequired [] := by decide
  rw [← List.nil_append (' ' :: _), splitsAt_mentionsRequired (by decide), or_iff_right nil]
  exact listText_iff_parts nil (fun _ hd => splitsAt_mentionsRequired hd) as

end Attribute

namespace Rule

open Aria Attribute

variable (as : List Attribute)

theorem faults_input_iff : TagCheck.required.Faults (inside "input" as) ↔
    (∃ a ∈ as, a.Mentions) ∧ ¬∃ a ∈ as, a.Marks := by
  have named : Named "input" (inside "input" as) := IsWord.named (by decide) _
  have behind : (inside "input" as).drop "input".length = ' ' :: listText as := rfl
  rw [TagCheck.required.faults_iff (List.mem_singleton.2 rfl) named, behind, ← marked_tag_iff,
    ← mentionsRequired_listText_iff, ← occursIn_requiredMark_iff]
  simp [TagCheck.required, tag]

theorem passes_input_iff : ariaRequired.passes (tag "input" as) = false ↔
    (∃ a ∈ as, a.Mentions) ∧ ¬∃ a ∈ as, a.Marks := by
  have word : IsWord "input" := by decide
  have named : NamedAmong TagCheck.required.names (inside "input" as) :=
    ⟨"input", List.mem_singleton.2 rfl, word.named _⟩
  have taken : TagCheck.required.tags (tag "input" as) = [inside "input" as] := by
    rw [TagCheck.tags, tag, takenTags_tagText (not_mem_inside word (.inl rfl) as)
      (not_mem_inside word (.inr rfl) as), if_pos named]
  rw [← faults_input_iff, ← Bool.not_eq_true, passes_iff_events_eq_nil (by decide),
    TagCheck.events_required, taken]
  by_cases h : TagCheck.required.Faults (inside "input" as) <;> simp [h]

/-- An input fails if one of its attributes mentions `required` and none marks it.  So it fails just if an
attribute is named `required` and `aria-required` is not `true`, as long as nothing else in the tag says
`required` and no longer name ends in `aria-required`. -/
theorem required_inputs_fail :
    (ariaRequired.passes (tag "input" as) = false ↔
      (∃ a ∈ as, a.Mentions) ∧ ¬∃ a ∈ as, a.Marks) ∧
    ((∀ a ∈ as, a.Mentions → a.Is "required" ∨ a.Sets "aria-required" "true") →
      (∀ a ∈ as, a.Marks → a.Is "aria-required") →
      (ariaRequired.passes (tag "input" as) = false ↔
        (∃ a ∈ as, a.Is "required") ∧ ¬∃ a ∈ as, a.Sets "aria-required" "true")) := by
  refine ⟨passes_input_iff as, fun single whole => ?_⟩
  have marks : (∃ a ∈ as, a.Marks) ↔ ∃ a ∈ as, a.Sets "aria-required" "true" :=
    exists_congr fun a => and_congr_right fun ha => ⟨fun h => ⟨whole a ha h, h.2⟩, Sets.marks⟩
  rw [passes_input_iff, marks]
  refine and_congr_left fun none => exists_congr fun a => and_congr_right fun ha => ?_
  exact ⟨fun h => (single a ha h).resolve_right fun sets => none ⟨a, ha, sets⟩, Is.mentions⟩

theorem plain_required_fails :
    let as : List Attribute :=
      [{ name := "type".toList, value := some "text".toList }, { name := "REQUIRED".toList, value := none }]
    (∀ a ∈ as, a.Mentions → a.Is "required" ∨ a.Sets "aria-required" "true") ∧
      (∀ a ∈ as, a.Marks → a.Is "aria-required") ∧ ariaRequired.passes (tag "input" as) = false := by
  intro as
  have single : ∀ a ∈ as, a.Mentions → a.Is "required" ∨ a.Sets "aria-required" "true" := by
    decide +kernel
  have whole : ∀ a ∈ as, a.Marks → a.Is "aria-required" := by
    decide
  exact ⟨single, whole, ((required_inputs_fail as).2 single whole).2 (by decide)⟩

theorem optional_input_fails :
    let optional : List Attribute := [{ name := "aria-required".toList, value := some "false".toList }]
    let unmarked : List Attribute :=
      [{ name := "required".toList, value := none },
        { name := "data-aria-required".toList, value := some "true".toList }]
    (¬∃ a ∈ optional, a.Is "required") ∧ ariaRequired.passes (tag "input" optional) = false ∧
      (∃ a ∈ unmarked, a.Is "required") ∧ (¬∃ a ∈ unmarked, a.Sets "aria-required" "true") ∧
      ariaRequired.passes (tag "input" unmarked) := by
  decide +kernel

end Rule

end WcagAudit
