import Mathlib.Data.List.Infix
import WcagAudit.Proofs.Pattern.NamedTags
import WcagAudit.Proofs.Rule.Composition

namespace WcagAudit

namespace Aria

open Pattern

def MentionsRequired (v : List Char) : Prop := ∃ w, w <:+ v ∧ Named "required" w

instance : DecidablePred MentionsRequired := fun v =>
  decidable_of_iff (∃ w ∈ v.tails, Named "required" w) (by simp only [List.mem_tails, MentionsRequired])

theorem MentionsRequired.of_suffix {v v' : List Char} (h : MentionsRequired v) (hv : v <:+ v') :
    MentionsRequired v' :=
  h.imp fun _ ⟨hw, named⟩ => ⟨hw.trans hv, named⟩

theorem exists_reads_mention {t : Trail} {v r : List Char} (ht : t.rest = v ++ '>' :: r)
    (hv : '>' ∉ v) : (∃ u, (muchOfTag ++ (ignoringCase "required" ++ boundary)).Reads t u) ↔
      MentionsRequired v := by
  simp only [reads_append (p := muchOfTag), skimsTag_muchOfTag.reads_iff ht hv]
  constructor
  · rintro ⟨u, _, ⟨x, w, rfl, rfl⟩, reads⟩
    exact ⟨w, List.suffix_append x w, (exists_reads_named (by decide) rfl).1 ⟨u, reads⟩⟩
  · rintro ⟨w, ⟨x, rfl⟩, named⟩
    obtain ⟨u, reads⟩ :=
      (exists_reads_named (t := t.past x (w ++ '>' :: r)) (by decide) rfl).2 named
    exact ⟨u, _, ⟨x, w, rfl, rfl⟩, reads⟩

def requiredTag : Pattern :=
  ignoringCase "input" ++ (boundary ++ (muchOfTag ++ (ignoringCase "required" ++ boundary)))

theorem isTag_requiredInput : IsTag requiredInput (requiredTag ++ muchOfTag) :=
  Rule.isTag_requiredInput

theorem exists_reads_requiredTag {w : List Char} (hw : '>' ∉ w) :
    (∃ u, requiredTag.Reads ⟨1, '<', w ++ ['>'], []⟩ u) ↔
      Named "input" w ∧ MentionsRequired (w.drop "input".length) :=
  exists_reads_named_append (by decide) rfl (P := MentionsRequired) fun x v split =>
    exists_reads_mention rfl fun h => hw (split ▸ List.mem_append_right x h)

theorem mentionsRequired_of_inner {s s' : List Char} (inside : '<' :: s' <:+ s)
    (inner : MentionsRequired (s'.drop "input".length)) :
    MentionsRequired (s.drop "input".length) := by
  refine inner.of_suffix (List.suffix_of_suffix_length_le ((List.drop_suffix _ s').trans
    ((List.suffix_cons '<' s').trans inside)) (List.drop_suffix _ s) ?_)
  have shorter := inside.length_le
  simp only [List.length_cons, List.length_drop] at shorter ⊢
  omega

end Aria

open Aria Pattern

/-- What a rule asks of tags: of which, by their names, and what it finds wrong with one that has `s`
between its brackets, of which `v` stands behind the name.  Of a tag in order the rule says
nothing, hence `quiet`. -/
structure TagCheck where
  rule : Rule
  names : List String
  faulty : (s v : List Char) → Bool
  event : List Char → Event
  words : ∀ name ∈ names, IsWord name := by decide
  quiet : rule ≠ .keyboardAccess := by decide

namespace TagCheck

def tags (c : TagCheck) (t : List Char) : List (List Char) := takenTags (NamedAmong c.names) t

def Faults (c : TagCheck) (s : List Char) : Prop :=
  ∃ name ∈ c.names, Named name s ∧ c.faulty s (s.drop name.length)

instance (c : TagCheck) : DecidablePred c.Faults := fun s => by
  unfold Faults
  infer_instance

theorem faults_iff (c : TagCheck) {s : List Char} {name : String} (listed : name ∈ c.names)
    (named : Named name s) : c.Faults s ↔ c.faulty s (s.drop name.length) := by
  constructor
  · rintro ⟨other, listed', named', faulty⟩
    rwa [named.length_eq named' (c.words name listed) (c.words other listed')]
  · exact fun faulty => ⟨name, listed, named, faulty⟩

def labels : TagCheck where
  rule := .ariaLabels
  names := ["button", "input", "select", "a", "img", "iframe"]
  faulty _ v := !labelAttribute.occursIn v
  event := .missingLabel

def required : TagCheck where
  rule := .ariaRequired
  names := ["input"]
  faulty s v := MentionsRequired v && !requiredMark.occursIn (tagText s)
  event := .missingRequiredMark

def focusManagement : TagCheck where
  rule := .ariaFocusManagement
  names := ["input", "button", "select", "textarea", "a", "div", "span"]
  faulty _ v := hidden.occursIn v || negativeTabindex.occursIn v
  event := .hiddenFromFocus

def keyboardNavigation : TagCheck where
  rule := .ariaKeyboardNavigation
  names := ["button", "a", "input", "select", "textarea"]
  faulty _ v := !numericTabindex.occursIn v
  event := .missingTabindex

def all : List TagCheck := [labels, required, focusManagement, keyboardNavigation]

def sighting (c : TagCheck) (s : List Char) : Sighting :=
  { accepted := ¬c.Faults s, event := c.event (tagText s) }

theorem sightings_of_search (c : TagCheck) {f : Match → Sighting}
    (tag : IsTag (tagNamed c.names) (anyName c.names ++ boundary ++ part muchOfTag))
    (ha : (anyName c.names ++ boundary).staysBefore '>')
    (meets : ∀ t, c.rule.sightings t = ((tagNamed c.names).matchesIn t).map f)
    (same : ∀ s v, f ⟨tagText s, [v]⟩ =
      { accepted := !c.faulty s v, event := c.event (tagText s) }) (t : List Char) :
    c.rule.sightings t = (c.tags t).map c.sighting := by
  rw [meets, map_matchesIn_tagNamed c.words tag ha, tags]
  intro name listed s named
  rw [same, sighting, decide_not, decide_eq_decide.2 (c.faults_iff listed named), Bool.decide_coe]

theorem sightings_labels (t : List Char) :
    Rule.ariaLabels.sightings t = (labels.tags t).map labels.sighting :=
  labels.sightings_of_search (isTag_tagNamed (by decide)) (by decide) (fun _ => rfl)
    (fun _ _ => by simp [labels, Match.part]) t

theorem sightings_focusManagement (t : List Char) :
    Rule.ariaFocusManagement.sightings t = (focusManagement.tags t).map focusManagement.sighting :=
  focusManagement.sightings_of_search (isTag_tagNamed (by decide)) (by decide) (fun _ => rfl)
    (fun _ _ => rfl) t

theorem sightings_keyboardNavigation (t : List Char) : Rule.ariaKeyboardNavigation.sightings t =
    (keyboardNavigation.tags t).map keyboardNavigation.sighting :=
  keyboardNavigation.sightings_of_search (isTag_tagNamed (by decide)) (by decide) (fun _ => rfl)
    (fun _ _ => by simp [keyboardNavigation, Match.part]) t

theorem sightings_required (t : List Char) : Rule.ariaRequired.sightings t =
    ((required.tags t).filter fun s => MentionsRequired (s.drop "input".length)).map
      required.sighting := by
  have single : NamedAmong required.names = Named "input" := by
    funext s
    simp [NamedAmong, required]
  have taken : takenTags (fun s => Named "input" s ∧ MentionsRequired (s.drop "input".length)) t =
      (required.tags t).filter fun s => MentionsRequired (s.drop "input".length) := by
    rw [takenTags_and fun s s' inside _ _ inner => mentionsRequired_of_inner inside inner]
    simp only [tags, single]
  have texts := texts_matchesIn isTag_requiredInput
    (fun _ hw =>
      (isSome_inTag?_iff skimsTag_muchOfTag (by decide) hw).trans (exists_reads_requiredTag hw)) t
  have meets : Rule.ariaRequired.sightings t = ((requiredInput.matchesIn t).map Match.text).map fun tag =>
      { accepted := requiredMark.occursIn tag, event := .missingRequiredMark tag } := by
    rw [List.map_map]
    rfl
  rw [meets, texts, taken, List.map_map]
  refine List.map_congr_left fun s hs => ?_
  obtain ⟨hs, mentions⟩ := List.mem_filter.1 hs
  obtain ⟨-, name, listed, named⟩ := mem_takenTags hs
  obtain rfl := List.mem_singleton.1 listed
  rw [sighting, decide_not, decide_eq_decide.2 (required.faults_iff listed named), Bool.decide_coe]
  simp_all [required]

theorem events_of_sightings (c : TagCheck) {t : List Char} {found : List (List Char)}
    (h : c.rule.sightings t = found.map c.sighting) :
    c.rule.events t = (found.filter c.Faults).map fun s => c.event (tagText s) := by
  rw [Rule.events_eq, Sighting.flatMap_events (Rule.quiet_sightings c.quiet), h]
  simp [List.filter_map, Function.comp_def, sighting]

theorem events_required (t : List Char) : Rule.ariaRequired.events t =
    ((required.tags t).filter required.Faults).map fun s => required.event (tagText s) := by
  refine (required.events_of_sightings (sightings_required t)).trans ?_
  rw [List.filter_filter]
  congr 1
  refine List.filter_congr fun s hs => ?_
  have mentions (faults : required.Faults s) : MentionsRequired (s.drop "input".length) := by
    obtain ⟨name, listed, -, faulty⟩ := faults
    obtain rfl := List.mem_singleton.1 listed
    simp_all [required]
  simpa using mentions

theorem events_eq {c : TagCheck} (hc : c ∈ all) (t : List Char) :
    c.rule.events t = ((c.tags t).filter c.Faults).map fun s => c.event (tagText s) := by
  simp only [all, List.mem_cons, List.not_mem_nil, or_false] at hc
  rcases hc with rfl | rfl | rfl | rfl
  · exact labels.events_of_sightings (sightings_labels t)
  · exact events_required t
  · exact focusManagement.events_of_sightings (sightings_focusManagement t)
  · exact keyboardNavigation.events_of_sightings (sightings_keyboardNavigation t)

end TagCheck

namespace Rule

/-- The rules on labels, required inputs, focus order and keyboard navigation look at the tags that a scan
by brackets and names takes.  Such a rule passes a document if nothing is wrong with any of them, and
else names those with which something is, once each and in order. -/
theorem elements_read_by_name (t : List Char) : ∀ c ∈ TagCheck.all,
    (c.rule.passes t ↔ ∀ s ∈ c.tags t, ¬c.Faults s) ∧
    c.rule.events t = ((c.tags t).filter c.Faults).map fun s => c.event (tagText s) := by
  intro c hc
  have events := TagCheck.events_eq hc t
  refine ⟨?_, events⟩
  rw [passes_iff_events_eq_nil c.quiet, events, List.map_eq_nil_iff, List.filter_eq_nil_iff]
  simp only [decide_eq_true_eq]

theorem inner_link_unlabelled :
    let t := "<abbr <A title=aria-label=''><button aria-label='x'><\u017felect\n>".toList
    TagCheck.labels ∈ TagCheck.all ∧
      ariaLabels.events t =
        [.missingLabel "<A title=aria-label=''>".toList, .missingLabel "<\u017felect\n>".toList] := by
  intro t
  have listed : TagCheck.labels ∈ TagCheck.all := .head _
  refine ⟨listed, (elements_read_by_name t TagCheck.labels listed).2.trans ?_⟩
  decide +kernel

end Rule

end WcagAudit
