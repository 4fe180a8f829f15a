import WcagAudit.Proofs.Rule.SingleTag

namespace WcagAudit

open Aria

def SaysImage (v : List Char) : Prop := ∃ word ∈ AltText.imageTypes, word <:+: v.map foldLetter

def SaysButton (v : List Char) : Prop :=
  ∃ word ∈ KeyboardAccess.buttonRoles, word <:+: v.map foldLetter

/-- An element that a rule lists, with what has to stand behind the name. -/
structure Element where
  name : String
  asks : List Char → Prop

def Element.plain (name : String) : Element := ⟨name, fun _ => True⟩

namespace Rule

def elements : Rule → List Element
  | altText => AltText.imageNames.map .plain ++ [⟨"input", SaysImage⟩]
  | keyboardAccess => KeyboardAccess.interactiveNames.map .plain ++ [⟨"div", SaysButton⟩]
  | ariaLabels => TagCheck.labels.names.map .plain
  | ariaRequired => [⟨"input", MentionsRequired⟩]
  | ariaFocusManagement => TagCheck.focusManagement.names.map .plain
  | ariaKeyboardNavigation => TagCheck.keyboardNavigation.names.map .plain
  | _ => []

def Opens (r : Rule) (name : String) (s : List Char) : Prop :=
  if r = altText then name.toList <+: s.map foldLetter else Named name s

def Looks (r : Rule) (s : List Char) : Prop :=
  ∃ e ∈ r.elements, r.Opens e.name s ∧ e.asks (s.drop e.name.length)

theorem looks_altText {s : List Char} : altText.Looks s ↔ AltText.NeedsAlternative s := by
  simp only [Looks, elements, Opens, if_pos, List.mem_append, List.mem_map, List.mem_singleton,
    or_and_right, exists_or, exists_exists_and_eq_and, exists_eq_left, Element.plain, and_true]
  rfl

theorem looks_keyboardAccess {s : List Char} :
    keyboardAccess.Looks s ↔ KeyboardAccess.Interactive s := by
  simp only [Looks, elements, Opens, reduceCtorEq, if_false, List.mem_append, List.mem_map,
    List.mem_singleton, or_and_right, exists_or, exists_exists_and_eq_and, exists_eq_left,
    Element.plain, and_true]
  rfl

theorem looks_of_names {r : Rule} {names : List String} (listed : r.elements = names.map .plain)
    (whole : r ≠ altText) {s : List Char} : r.Looks s ↔ NamedAmong names s := by
  simp only [Looks, listed, Opens, if_neg whole, List.mem_map, exists_exists_and_eq_and,
    Element.plain, and_true]
  rfl

theorem looks_ariaRequired {s : List Char} :
    ariaRequired.Looks s ↔ Named "input" s ∧ MentionsRequired (s.drop "input".length) := by
  simp [Looks, elements, Opens]

section

variable {s : List Char} (opened : '<' ∉ s) (closed : '>' ∉ s)

include opened closed

theorem takenTags_eq_nil_iff {qualifies : List Char → Prop} [DecidablePred qualifies] :
    takenTags qualifies (tagText s) = [] ↔ ¬qualifies s := by
  rw [takenTags_tagText opened closed]
  split <;> simp_all

theorem sightings_tagText_eq_nil_iff {r : Rule} (hr : r ∈ tagByTag) :
    r.sightings (tagText s) = [] ↔ ¬r.Looks s := by
  simp only [tagByTag, List.mem_cons, List.not_mem_nil, or_false] at hr
  rcases hr with rfl | rfl | rfl | rfl
  · rw [TagCheck.sightings_labels, List.map_eq_nil_iff, TagCheck.tags,
      takenTags_eq_nil_iff opened closed, looks_of_names rfl (by decide)]
  · rw [looks_ariaRequired, TagCheck.sightings_required, List.map_eq_nil_iff, TagCheck.tags,
      takenTags_tagText opened closed]
    split <;> simp_all [NamedAmong, TagCheck.required]
  · rw [TagCheck.sightings_focusManagement, List.map_eq_nil_iff, TagCheck.tags,
      takenTags_eq_nil_iff opened closed, looks_of_names rfl (by decide)]
  · rw [TagCheck.sightings_keyboardNavigation, List.map_eq_nil_iff, TagCheck.tags,
      takenTags_eq_nil_iff opened closed, looks_of_names rfl (by decide)]

theorem sightings_of_remove_eq_nil_iff {r : Rule} (hr : r ∈ commentFree) {t : List Char}
    (ht : Comment.remove t = tagText s) : r.sightings t = [] ↔ ¬r.Looks s := by
  simp only [commentFree, List.mem_cons, List.not_mem_nil, or_false] at hr
  rcases hr with rfl | rfl
  · rw [looks_altText, AltText.sightings_eq_tags, AltText.tags, ht]
    simp only [List.map_eq_nil_iff, takenTags_eq_nil_iff opened closed]
  · rw [looks_keyboardAccess, KeyboardAccess.sightings_eq_tags, KeyboardAccess.tags, ht]
    simp only [List.map_eq_nil_iff, takenTags_eq_nil_iff opened closed]

end

/-- The name of a tag goes on behind that of an element, and the rule does not see that it does. -/
def GoesOn (r : Rule) (name : String) (n : List Char) : Prop :=
  name.toList ++ (if r = altText then [] else ['-']) <+: n.map Char.toLower

theorem isWord_of_mem_elements {r : Rule} : ∀ e ∈ r.elements, IsWord e.name := by
  cases r <;> decide

section

variable {n rest : List Char} (letters : ∀ c ∈ n, c.isAlphanum ∨ c = '-')
  (apart : ∀ c ∈ rest.head?, c = ' ')

include letters

theorem map_foldLetter_of_letters : n.map foldLetter = n.map Char.toLower := by
  refine List.map_congr_left fun c hc => ?_
  rw [foldLetter, if_neg, if_neg]
  · rintro rfl
    exact absurd (letters _ hc) (by decide)
  · rintro rfl
    exact absurd (letters _ hc) (by decide)

include apart

theorem prefix_inside_iff {w : List Char} (hw : ' ' ∉ w) :
    w <+: (n ++ rest).map foldLetter ↔ w <+: n.map Char.toLower := by
  rw [List.map_append, map_foldLetter_of_letters letters]
  refine ⟨fun opens => ?_, fun opens => opens.trans (List.prefix_append _ _)⟩
  obtain ⟨x, hx⟩ := opens
  rcases List.append_eq_append_iff.1 hx with ⟨y, hy, -⟩ | ⟨y, rfl, hy⟩
  · exact ⟨y, hy.symm⟩
  · cases y with
    | nil => simp
    | cons c y =>
      -- What is left of the word would stand in the rest, which is empty or starts with a space.
      cases rest with
      | nil => cases hy
      | cons d rest =>
        obtain rfl : d = ' ' := apart d rfl
        obtain ⟨rfl, -⟩ := List.cons_eq_cons.1 hy
        exact absurd (by simp [foldLetter_of_isBlank isBlank_space]) hw

end

section

variable {name : String} {n rest : List Char} (word : IsWord name)
  (unlisted : ¬sameAscii n name.toList)

include word unlisted

theorem exists_longer (opens : name.toList <+: n.map Char.toLower) :
    ∃ x c y, n = x ++ c :: y ∧ x.map Char.toLower = name.toList ∧ x.length = name.length := by
  obtain ⟨x, ⟨y, rfl⟩, same⟩ := List.prefix_map_iff.1 opens
  cases y with
  | nil =>
    refine absurd (beq_iff_eq.2 ?_) unlisted
    have small : name.toList.map Char.toLower = name.toList := by
      rw [← map_foldLetter_of_letters, word.small]
      exact fun c hc => .inl ((Bool.or_eq_true ..).mpr (.inl (word.letters c hc)))
    rw [List.append_nil, small, same]
  | cons c y =>
    exact ⟨x, c, y, rfl, same.symm, by rw [← String.length_toList, same, List.length_map]⟩

variable (letters : ∀ c ∈ n, c.isAlphanum ∨ c = '-') (apart : ∀ c ∈ rest.head?, c = ' ')

include letters apart

theorem named_inside_iff :
    Named name (n ++ rest) ↔ name.toList ++ ['-'] <+: n.map Char.toLower := by
  have space : ' ' ∉ name.toList := fun h => absurd (word.letters _ h) (by decide)
  rw [Named, prefix_inside_iff letters apart space]
  constructor
  · rintro ⟨opens, ended⟩
    obtain ⟨x, c, y, rfl, same, length⟩ := exists_longer word unlisted opens
    rw [← length, List.append_assoc, List.drop_left] at ended
    rcases letters c (by simp) with alnum | rfl
    · exact absurd (isWordChar_of_isAlphanum alnum) ended
    · exact ⟨y.map Char.toLower, by simp [same]⟩
  · intro further
    have opens := (List.prefix_append ..).trans further
    obtain ⟨x, c, y, rfl, same, length⟩ := exists_longer word unlisted opens
    rw [List.map_append, same, List.prefix_append_right_inj, List.map_cons,
      List.cons_prefix_cons] at further
    obtain rfl := (toLower_eq_iff (by decide)).1 further.1.symm
    rw [← length, List.append_assoc, List.drop_left]
    have ended : ¬isWordChar '-' := by decide
    exact ⟨opens, ended⟩

theorem opens_inside_iff {r : Rule} : r.Opens name (n ++ rest) ↔ r.GoesOn name n := by
  have space : ' ' ∉ name.toList := fun h => absurd (word.letters _ h) (by decide)
  unfold Opens GoesOn
  split
  · rw [prefix_inside_iff letters apart space, List.append_nil]
  · exact named_inside_iff word unlisted letters apart

end

/-- The rule takes the tag for an element whose name it only starts with. -/
def Mistakes (r : Rule) (tag : PlainTag) : Prop :=
  ∃ e ∈ r.elements, r.GoesOn e.name tag.name ∧ e.asks (tag.inside.drop e.name.length)

section

variable {r : Rule}

theorem asks_respaced_iff (hr : r ∈ commentFree) {e : Element} (he : e ∈ r.elements)
    {x rest : List Char} (hx : Word x) (filled : x ≠ []) :
    e.asks (x ++ respaced rest) ↔ e.asks (x ++ rest) := by
  have among {words : List (List Char)} (hw : ∀ word ∈ words, Word word ∧ '>' ∉ word) :
      (∃ word ∈ words, word <:+: (x ++ respaced rest).map foldLetter) ↔
        ∃ word ∈ words, word <:+: (x ++ rest).map foldLetter :=
    exists_congr fun word => and_congr_right fun listed =>
      infix_fold_respaced (hw word listed).1 (hw word listed).2 hx filled
  simp only [commentFree, List.mem_cons, List.not_mem_nil, or_false] at hr
  rcases hr with rfl | rfl <;> rcases List.mem_append.1 he with plain | asking
  · obtain ⟨name, -, rfl⟩ := List.mem_map.1 plain
    exact Iff.rfl
  · obtain rfl := List.mem_singleton.1 asking
    exact among (by decide)
  · obtain ⟨name, -, rfl⟩ := List.mem_map.1 plain
    exact Iff.rfl
  · obtain rfl := List.mem_singleton.1 asking
    exact among (by decide)

variable {tag : PlainTag} (unlisted : ∀ e ∈ r.elements, ¬sameAscii tag.name e.name.toList)

include unlisted

theorem looks_iff {rest : List Char} (apart : ∀ c ∈ rest.head?, c = ' ') :
    r.Looks (tag.name ++ rest) ↔ ∃ e ∈ r.elements, r.GoesOn e.name tag.name ∧
      e.asks ((tag.name ++ rest).drop e.name.length) :=
  exists_congr fun e => and_congr_right fun listed => and_congr_left fun _ =>
    opens_inside_iff (isWord_of_mem_elements e listed) (unlisted e listed) tag.isAlphanum_or apart

theorem looks_respaced_iff (hr : r ∈ commentFree) :
    r.Looks (tag.name ++ respaced tag.rest) ↔ r.Mistakes tag := by
  rw [looks_iff unlisted (head_respaced tag.eq_space_of_mem_head), Mistakes, PlainTag.inside]
  refine exists_congr fun e => and_congr_right fun listed => and_congr_right fun further => ?_
  obtain ⟨x, c, y, split, -, length⟩ := exists_longer (isWord_of_mem_elements e listed)
    (unlisted e listed) ((List.prefix_append ..).trans further)
  have behind : Word (c :: y) := fun d hd =>
    tag.word_name d (split ▸ List.mem_append_right x hd)
  rw [split, ← length, List.append_assoc, List.append_assoc, List.drop_left, List.drop_left]
  exact asks_respaced_iff hr listed behind (List.cons_ne_nil c y)

theorem sightings_eq_nil_iff (hr : r ∈ tagByTag ++ commentFree) :
    r.sightings tag.text = [] ↔ ¬r.Mistakes tag := by
  rcases List.mem_append.1 hr with raw | free
  · rw [PlainTag.text, sightings_tagText_eq_nil_iff tag.opened_inside tag.closed_inside raw,
      PlainTag.inside, looks_iff unlisted tag.eq_space_of_mem_head]
    rfl
  · rw [← looks_respaced_iff unlisted free]
    exact sightings_of_remove_eq_nil_iff (not_mem_append_respaced (by decide) tag.opened_inside)
      (not_mem_append_respaced (by decide) tag.closed_inside) free
      (tag.remove_text.trans (normalize_tagText tag.word_name tag.rest))

end

/-- A rule passes a tag with none of the names it lists, and says nothing of it, unless it mistakes the
tag for an element.  Where a word has to end behind a name, it takes a hyphen in the name to do so. -/
theorem other_names_passed {r : Rule} (hr : r ∈ tagByTag ++ commentFree) (tag : PlainTag)
    (unlisted : ∀ e ∈ r.elements, ¬sameAscii tag.name e.name.toList) :
    (¬r.Mistakes tag → r.passes tag.text ∧ r.events tag.text = []) ∧
    (r.Mistakes tag → r.sightings tag.text ≠ []) ∧
    (r ≠ altText → '-' ∉ tag.name → r.passes tag.text ∧ r.events tag.text = []) := by
  have met := sightings_eq_nil_iff unlisted hr
  have unseen (h : ¬r.Mistakes tag) : r.passes tag.text ∧ r.events tag.text = [] := by
    simp [passes_eq, events_eq, met.2 h, Sighting.allAccepted]
  refine ⟨unseen, fun h none => met.1 none h, fun whole single => unseen ?_⟩
  rintro ⟨e, -, ⟨z, hz⟩, -⟩
  rw [if_neg whole] at hz
  have hyphen : '-' ∈ tag.name.map Char.toLower := hz ▸ by simp
  obtain ⟨c, hc, lower⟩ := List.mem_map.1 hyphen
  obtain rfl := (toLower_eq_iff (by decide)).1 lower
  exact single hc

theorem divided_button_passed :
    let tag : PlainTag := { name := "divided".toList, rest := " role=\"button\"".toList }
    keyboardAccess ∈ tagByTag ++ commentFree ∧
      (∀ e ∈ keyboardAccess.elements, ¬sameAscii tag.name e.name.toList) ∧
      keyboardAccess.passes tag.text ∧ keyboardAccess.events tag.text = [] := by
  intro tag
  have listed : keyboardAccess ∈ tagByTag ++ commentFree := by decide
  have unlisted : ∀ e ∈ keyboardAccess.elements, ¬sameAscii tag.name e.name.toList := by decide
  exact ⟨listed, unlisted,
    (other_names_passed listed tag unlisted).2.2 (by decide) (by decide)⟩

theorem longer_names_fail :
    let images : PlainTag := { name := "images".toList, rest := [] }
    let custom : PlainTag := { name := "a-b".toList, rest := [] }
    (∀ e ∈ altText.elements, ¬sameAscii images.name e.name.toList) ∧
      ¬altText.passes images.text ∧
      (∀ e ∈ keyboardAccess.elements, ¬sameAscii custom.name e.name.toList) ∧
      ¬keyboardAccess.passes custom.text := by
  decide +kernel

end Rule

end WcagAudit
