import WcagAudit.Proofs.Rule.Attributes

namespace WcagAudit

open Comment

namespace Comment

theorem strip_sublist (t : List Char) : (strip t).Sublist t := by
  induction t using strip.induct with
  | case1 => rw [strip_nil]
  | case2 c t rest h ih =>
    obtain ⟨w, split, -⟩ := behindComment?_eq_some_iff.1 h
    rw [strip_of_some h, split]
    exact ih.trans (List.sublist_append_right w rest)
  | case3 c t h ih =>
    rw [strip_of_none h]
    exact ih.cons_cons c

theorem behindComment?_bracket {c : Char} (h : c ≠ '!') (t : List Char) :
    behindComment? ('<' :: c :: t) = none := by
  unfold behindComment?
  split <;> simp_all

theorem strip_bracket {w : List Char} (filled : w ≠ []) (h : ∀ c ∈ w, c ∉ ['/', '<', '!'])
    (t : List Char) : strip ('<' :: (w ++ t)) = '<' :: (w ++ strip t) := by
  have opens : behindComment? ('<' :: (w ++ t)) = none := by
    obtain ⟨c, w, rfl⟩ := List.exists_cons_of_ne_nil filled
    have first := h c List.mem_cons_self
    exact behindComment?_bracket (by simp_all) (w ++ t)
  have other : ∀ c ∈ w, c ∉ ['/', '<'] := fun c hc => by
    have all := h c hc
    simp_all
  rw [strip_of_none opens, strip_append_of_other other]

end Comment

namespace Attribute

section

variable {name : String} (word : IsWord name) (as : List Attribute)

include word

theorem strip_tag :
    strip (tag name as) = '<' :: (name.toList ++ [' '] ++ strip (listText as ++ ['>'])) := by
  have split : tag name as = '<' :: ((name.toList ++ [' ']) ++ (listText as ++ ['>'])) := by
    simp [tag, inside, tagText]
  rw [split, strip_bracket (by simp) fun c hc => ?_]
  rcases List.mem_append.1 hc with letter | space
  · replace letter := word.letters c letter
    rintro (_ | ⟨_, _ | ⟨_, _ | ⟨_, ⟨⟩⟩⟩⟩) <;> exact absurd letter (by decide)
  · obtain rfl := List.mem_singleton.1 space
    decide

theorem exists_strip_tag (closing : '>' ∈ strip (tag name as)) :
    ∃ s, '<' ∉ name.toList ++ ' ' :: s ∧ '>' ∉ name.toList ++ ' ' :: s ∧
      strip (tag name as) = tagText (name.toList ++ ' ' :: s) := by
  obtain ⟨s, e, split, hs, he⟩ := List.sublist_append_iff.1 (strip_sublist (listText as ++ ['>']))
  have outside {c : Char} (hc : c = '<' ∨ c = '>') : c ∉ name.toList ++ ' ' :: s := fun h =>
    not_mem_inside word hc as (((hs.cons_cons ' ').append_left name.toList).subset h)
  rw [strip_tag word, split] at closing ⊢
  rcases List.sublist_singleton.1 he with rfl | rfl
  · have bracket : '>' ∈ name.toList ++ ' ' :: s := by simpa using closing
    exact absurd bracket (outside (.inr rfl))
  · exact ⟨s, outside (.inl rfl), outside (.inr rfl), by simp [tagText]⟩

/-- A scan takes the tag without its comments, in normal form, or nothing if the closing bracket stands
in a comment. -/
theorem takenTags_remove_tag {qualifies : List Char → Prop} [DecidablePred qualifies]
    (takes : ∀ s, qualifies (name.toList ++ respaced (' ' :: s))) :
    (takenTags qualifies (remove (tag name as))).map tagText =
      if '>' ∈ strip (tag name as) then [normalize (strip (tag name as))] else [] := by
  rw [remove_eq]
  split
  · rename_i closing
    obtain ⟨s, opened, closed, left⟩ := exists_strip_tag word as closing
    have letters : Word name.toList := fun c hc => not_isBlank_of_isAlpha (word.letters c hc)
    rw [left, normalize_tagText letters, takenTags_tagText
      (not_mem_append_respaced (by decide) opened) (not_mem_append_respaced (by decide) closed),
      if_pos (takes s)]
    rfl
  · rename_i hidden
    rw [takenTags_of_not_mem (mt (mem_normalize (by decide)).1 hidden)]
    rfl

theorem strip_tag_of_none
    (none : ∀ a ∈ as, ∀ v ∈ a.value, ¬"//".toList <:+: v ∧ ¬"/*".toList <:+: v) :
    strip (tag name as) = tag name as := by
  have outside {c : Char} (hc : c = '<' ∨ c = '>') : c ∉ ' ' :: listText as := fun h =>
    not_mem_inside word hc as (List.mem_append_right _ h)
  let plain : PlainTag :=
    { name := name.toList
      rest := ' ' :: listText as
      filled := word.filled
      letters := List.all_eq_true.2 fun c hc => by simp [Char.isAlphanum, word.letters c hc]
      apart := rfl
      opened := outside (.inl rfl)
      closed := outside (.inr rfl)
      block := not_infix_rest as (by decide) fun a ha v hv => (none a ha v hv).2
      line := not_infix_rest as (by decide) fun a ha v hv => (none a ha v hv).1 }
  exact plain.strip_text

end

end Attribute

namespace Rule

open Attribute
open KeyboardAccess hiding tag

theorem passes_altText_iff (t : List Char) :
    altText.passes t ↔ ∀ tag ∈ AltText.tags t, "alt=".toList <:+: tag := by
  simp [passes_eq, AltText.sightings_eq_tags, Sighting.allAccepted]

variable (as : List Attribute)

theorem passes_image_iff : altText.passes (tag "img" as) ↔
    ('>' ∈ strip (tag "img" as) → "alt=".toList <:+: strip (tag "img" as)) := by
  have takes (s : List Char) : AltText.NeedsAlternative ("img".toList ++ respaced (' ' :: s)) :=
    .inl ⟨"img", by decide, by simp [foldLetter]⟩
  have word : Word "alt=".toList := by decide
  rw [passes_altText_iff, AltText.tags, takenTags_remove_tag (by decide) as takes,
    ← infix_normalize word]
  split <;> simp_all

theorem operable_normalize {t : List Char} : Operable (normalize t) ↔ Operable t := by
  have words : ∀ mark ∈ handlerMarks, Word (mark.toList.map foldLetter) := by decide
  exact exists_congr fun mark => and_congr_right fun listed => exists_congr fun w =>
    and_congr_left fun same => infix_normalize ((words mark listed).of_map_foldLetter same)

theorem passes_link_iff : keyboardAccess.passes (tag "a" as) ↔
    ('>' ∈ strip (tag "a" as) → Operable (strip (tag "a" as))) := by
  have takes (s : List Char) : Interactive ("a".toList ++ respaced (' ' :: s)) := by
    rw [respaced_space]
    exact .inl ⟨"a", by decide, IsWord.named (by decide) _⟩
  rw [passes_keyboardAccess_iff, KeyboardAccess.tags, takenTags_remove_tag (by decide) as takes,
    ← operable_normalize]
  split <;> simp_all

/-- An image without `alt=` and a link without a handler fail if a closing bracket is left of them without
their comments, and no such mark.  So they fail if no value has a comment mark in it, but not if the two
slashes of a URL turn the rest of the tag into a comment. -/
theorem bare_tags_fail :
    (altText.passes (tag "img" as) = false ↔
      '>' ∈ strip (tag "img" as) ∧ ¬"alt=".toList <:+: strip (tag "img" as)) ∧
    (keyboardAccess.passes (tag "a" as) = false ↔
      '>' ∈ strip (tag "a" as) ∧ ¬Operable (strip (tag "a" as))) ∧
    ((∀ a ∈ as, ∀ v ∈ a.value, ¬"//".toList <:+: v ∧ ¬"/*".toList <:+: v) →
      (¬"alt=".toList <:+: tag "img" as → altText.passes (tag "img" as) = false) ∧
      (¬Operable (tag "a" as) → keyboardAccess.passes (tag "a" as) = false)) := by
  have image : altText.passes (tag "img" as) = false ↔
      '>' ∈ strip (tag "img" as) ∧ ¬"alt=".toList <:+: strip (tag "img" as) := by
    rw [← Bool.not_eq_true, passes_image_iff, Classical.not_imp]
  have link : keyboardAccess.passes (tag "a" as) = false ↔
      '>' ∈ strip (tag "a" as) ∧ ¬Operable (strip (tag "a" as)) := by
    rw [← Bool.not_eq_true, passes_link_iff, Classical.not_imp]
  have bracket (name : String) : '>' ∈ tag name as := by simp [tag, tagText]
  refine ⟨image, link, fun none => ⟨fun bare => image.2 ?_, fun bare => link.2 ?_⟩⟩
  · rw [strip_tag_of_none (by decide) as none]
    exact ⟨bracket "img", bare⟩
  · rw [strip_tag_of_none (by decide) as none]
    exact ⟨bracket "a", bare⟩

theorem relative_image_fails :
    let as : List Attribute := [{ name := "src".toList, value := some "/a.b/c.png".toList }]
    (∀ a ∈ as, ∀ v ∈ a.value, ¬"//".toList <:+: v ∧ ¬"/*".toList <:+: v) ∧
      ¬"alt=".toList <:+: tag "img" as ∧ altText.passes (tag "img" as) = false ∧
      ¬Operable (tag "a" as) ∧ keyboardAccess.passes (tag "a" as) = false := by
  intro as
  have plain : ∀ a ∈ as, ∀ v ∈ a.value, ¬"//".toList <:+: v ∧ ¬"/*".toList <:+: v := by
    decide
  have bare : ¬"alt=".toList <:+: tag "img" as := by decide
  have dead : ¬Operable (tag "a" as) := by decide
  obtain ⟨image, link⟩ := (bare_tags_fail as).2.2 plain
  exact ⟨plain, bare, image bare, dead, link dead⟩

theorem url_hides_end :
    let source : List Attribute := [{ name := "src".toList, value := some "http://a.b/c.png".toList }]
    let target : List Attribute := [{ name := "href".toList, value := some "http://a.b".toList }]
    ¬"alt=".toList <:+: tag "img" source ∧ altText.passes (tag "img" source) ∧
      ¬Operable (tag "a" target) ∧ keyboardAccess.passes (tag "a" target) := by
  decide +kernel

end Rule

end WcagAudit
