import Mathlib.Data.List.Infix
import WcagAudit.Proofs.Pattern.TagScan
import WcagAudit.Proofs.Rule.Composition

namespace WcagAudit

namespace KeyboardAccess

open Pattern

def interactiveNames : List String := ["button", "a", "input", "select", "textarea", "video"]

def buttonRoles : List (List Char) :=
  [['"'], ['\x27']].flatMap fun q => [['"'], ['\x27']].map fun q' =>
    "role=".toList ++ q ++ "button".toList ++ q'

/-- What an interactive tag has between its brackets. -/
def Interactive (s : List Char) : Prop :=
  (∃ name ∈ interactiveNames, Named name s) ∨
    Named "div" s ∧ ∃ word ∈ buttonRoles, word <:+: (s.drop "div".length).map foldLetter

instance : DecidablePred Interactive := fun s => by
  unfold Interactive
  infer_instance

theorem isName_of_mem : ∀ name ∈ interactiveNames, IsName name := by decide

theorem spells_buttonRoles : (attributeIs "role" ["button"]).Spells buttonRoles :=
  (((spells_ignoringCase "role").append spells_equals).append spells_quote).append
    (spells_ignoringCase "button") |>.append spells_quote

theorem buttonDiv_eq : buttonDiv =
    ignoringCase "div" ++ (boundary ++ (littleOfTag ++ attributeIs "role" ["button"])) := rfl

theorem exists_reads_buttonDiv {w : List Char} (hw : '>' ∉ w) :
    (∃ u, buttonDiv.Reads ⟨1, '<', w ++ ['>'], []⟩ u) ↔
      Named "div" w ∧ ∃ word ∈ buttonRoles, word <:+: (w.drop "div".length).map foldLetter := by
  rw [buttonDiv_eq]
  refine exists_reads_named_append (by decide) rfl
    (P := fun v => ∃ word ∈ buttonRoles, word <:+: v.map foldLetter) fun x v split => ?_
  have outside : '>' ∉ v := fun h => hw (split ▸ List.mem_append_right x h)
  exact skimsTag_littleOfTag.exists_reads_append rfl outside (by decide) spells_buttonRoles

theorem exists_reads_interactive {w : List Char} (hw : '>' ∉ w) :
    (∃ u, interactive.Reads ⟨1, '<', w ++ ['>'], []⟩ u) ↔ Interactive w := by
  have named : (∃ u, (anyName names ++ boundary).Reads ⟨1, '<', w ++ ['>'], []⟩ u) ↔
      ∃ name ∈ interactiveNames, Named name w := by
    rw [exists_reads_anyName_append]
    exact exists_congr fun name => and_congr_right fun listed =>
      exists_reads_named (isName_of_mem name listed) rfl
  rw [Interactive, ← named, ← exists_reads_buttonDiv hw, interactive, exists_reads_firstOf]
  simp only [List.exists_mem_cons_iff, List.not_mem_nil, false_and, exists_false, or_false]

def tags (t : List Char) : List (List Char) :=
  (takenTags Interactive (Comment.remove t)).map tagText

theorem texts_matchesIn_tag (t : List Char) :
    (tag.matchesIn (Comment.remove t)).map Match.text = tags t :=
  texts_matchesIn Rule.isTag_keyboardAccess (fun _ hw =>
    (isSome_inTag?_iff skimsTag_littleOfTag (by decide) hw).trans (exists_reads_interactive hw)) _

theorem flatten_tags_sublist (t : List Char) : (tags t).flatten.Sublist (Comment.remove t) :=
  texts_matchesIn_tag t ▸ (found_matchesIn _).sublist

def handlerMarks : List String := ["tabindex=", "onfocus=", "onclick=", "onkeydown=", "onkeyup="]

def Operable (tag : List Char) : Prop :=
  ∃ mark ∈ handlerMarks, ∃ w, w <:+: tag ∧ w.map foldLetter = mark.toList.map foldLetter

theorem occursIn_handler {tag : List Char} : handler.occursIn tag ↔ Operable tag := occursIn_anyName

instance (tag : List Char) : Decidable (Operable tag) := decidable_of_iff _ occursIn_handler

def told (tag : List Char) : List Event :=
  .evaluatingAccess tag :: if Operable tag then [] else [.notOperable tag]

theorem sightings_eq_tags (t : List Char) : Rule.keyboardAccess.sightings t = (tags t).map fun tag =>
    { accepted := Operable tag, event := .notOperable tag, notice := some (.evaluatingAccess tag) } := by
  simp only [Rule.sightings, Rule.met, ← texts_matchesIn_tag, List.map_map, Function.comp_def,
    ← occursIn_handler, Bool.decide_coe]

end KeyboardAccess

namespace Rule

open KeyboardAccess

theorem events_keyboardAccess (t : List Char) : keyboardAccess.events t = (tags t).flatMap told := by
  rw [events_eq, sightings_eq_tags, List.flatMap_map]
  refine List.flatMap_congr fun tag _ => ?_
  simp [Sighting.events, told]

theorem passes_keyboardAccess_iff {t : List Char} :
    keyboardAccess.passes t ↔ ∀ tag ∈ tags t, Operable tag := by
  simp [passes_eq, sightings_eq_tags, Sighting.allAccepted]

/-- The rule on keyboard access looks at the tags that the scan takes, one by one: it passes a document
if each of them is operable, by what stands anywhere between its brackets. -/
theorem keyboardAccess_reads_tags (t : List Char) :
    (keyboardAccess.passes t ↔
      ∀ s ∈ takenTags Interactive (Comment.remove t), Operable (tagText s)) ∧
    keyboardAccess.events t =
      (takenTags Interactive (Comment.remove t)).flatMap fun s => told (tagText s) := by
  rw [passes_keyboardAccess_iff, events_keyboardAccess, tags]
  exact ⟨List.forall_mem_map, List.flatMap_map ..⟩

example : takenTags Interactive "<abbr><A><div onclick=f role='button'><div role=button>".toList =
    ["A".toList, "div onclick=f role='button'".toList] := by decide +kernel

end Rule
end WcagAudit
