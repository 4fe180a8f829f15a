import Mathlib.Data.List.Infix
import WcagAudit.Proofs.Pattern.TagScan
import WcagAudit.Proofs.Rule.Composition

namespace WcagAudit

namespace AltText

open Pattern

def imageNames : List String := ["img", "image", "area", "video"]

def imageTypes : List (List Char) :=
  [[], ['"'], ['\x27']].map fun mark => "type=".toList ++ mark ++ "image".toList

/-- What a tag that calls for a text alternative has between its brackets: the name of an image, or that
of an input and the type of an image behind it. -/
def NeedsAlternative (s : List Char) : Prop :=
  (∃ name ∈ imageNames, name.toList <+: s.map foldLetter) ∨
    "input".toList <+: s.map foldLetter ∧
      ∃ word ∈ imageTypes, word <:+: (s.drop "input".length).map foldLetter

instance : DecidablePred NeedsAlternative := fun s => by
  unfold NeedsAlternative
  infer_instance

theorem spells_imageTypes :
    (ignoringCase "type=" ++ optional quote ++ ignoringCase "image").Spells imageTypes :=
  ((spells_ignoringCase "type=").append spells_quote.optional).append (spells_ignoringCase "image")

theorem imageInput_eq : imageInput = ignoringCase "input" ++
    (muchOfTag ++ (ignoringCase "type=" ++ optional quote ++ ignoringCase "image")) ++
      optional quote := rfl

theorem exists_reads_imageInput {w : List Char} (hw : '>' ∉ w) :
    (∃ u, imageInput.Reads ⟨1, '<', w ++ ['>'], []⟩ u) ↔ "input".toList <+: w.map foldLetter ∧
      ∃ word ∈ imageTypes, word <:+: (w.drop "input".length).map foldLetter := by
  rw [imageInput_eq, exists_reads_append_idle optional_idle]
  refine exists_reads_name_append (by decide) rfl
    (P := fun v => ∃ word ∈ imageTypes, word <:+: v.map foldLetter) fun x v _ split => ?_
  have outside : '>' ∉ v := fun h => hw (split ▸ List.mem_append_right x h)
  exact skimsTag_muchOfTag.exists_reads_append rfl outside (by decide) spells_imageTypes

theorem exists_reads_image {w : List Char} (hw : '>' ∉ w) :
    (∃ u, image.Reads ⟨1, '<', w ++ ['>'], []⟩ u) ↔ NeedsAlternative w := by
  have named (name : String) (small : name.toList.map foldLetter = name.toList)
      (inside : '>' ∉ name.toList) : (∃ u, (ignoringCase name).Reads ⟨1, '<', w ++ ['>'], []⟩ u) ↔
        name.toList <+: w.map foldLetter := by
    rw [(spells_ignoringCase name).exists_reads_iff (by simpa [small] using inside) rfl, small]
    simp
  simp only [image, exists_reads_firstOf, List.exists_mem_cons_iff, List.not_mem_nil, false_and,
    exists_false, or_false, exists_reads_imageInput hw]
  rw [named "img" rfl (by decide), named "image" rfl (by decide), named "area" rfl (by decide),
    named "video" rfl (by decide)]
  simp only [NeedsAlternative, imageNames, List.exists_mem_cons_iff, List.not_mem_nil, false_and,
    exists_false, or_false, or_assoc]
  exact or_congr_right (or_congr_right (or_congr_right or_comm))

def tags (t : List Char) : List (List Char) :=
  (takenTags NeedsAlternative (Comment.remove t)).map tagText

theorem texts_matchesIn_tag (t : List Char) :
    (tag.matchesIn (Comment.remove t)).map Match.text = tags t :=
  texts_matchesIn Rule.isTag_altText (fun _ hw =>
    (isSome_inTag?_iff skimsTag_muchOfTag (by decide) hw).trans (exists_reads_image hw)) _

theorem occursIn_alternative {t : List Char} : alternative.occursIn t ↔ "alt=".toList <:+: t := by
  rw [alternative, occursIn_append_idle optional_idle, unquoted, occursIn_append_idle many_idle,
    occursIn_append_idle optional_idle, occursIn_exactly]

theorem sightings_eq_tags (t : List Char) : Rule.altText.sightings t = (tags t).map fun tag =>
    { accepted := "alt=".toList <:+: tag, event := .missingAlt tag } := by
  simp only [Rule.sightings, Rule.met, ← texts_matchesIn_tag, List.map_map, Function.comp_def,
    ← occursIn_alternative, Bool.decide_coe]

end AltText

namespace Rule

open AltText

/-- The rule on text alternatives looks at the tags that the scan takes: it passes a document if `alt=`
stands in each of them, and else names those without it, in order. -/
theorem altText_reads_tags (t : List Char) :
    (altText.passes t ↔ ∀ tag ∈ tags t, "alt=".toList <:+: tag) ∧
    altText.events t = ((tags t).filter fun tag => ¬"alt=".toList <:+: tag).map .missingAlt := by
  constructor
  · simp [passes_eq, sightings_eq_tags, Sighting.allAccepted]
  · rw [events_eq, Sighting.flatMap_events (quiet_sightings (r := altText) (by decide)), sightings_eq_tags]
    simp [List.filter_map, Function.comp_def]

example : tags "<p <img><IMAGES><input x type='IMAGE'><input alt=>".toList =
    ["<img>".toList, "<IMAGES>".toList, "<input x type='IMAGE'>".toList] := by decide +kernel

end Rule

end WcagAudit
