import WcagAudit.Proofs.Pattern.Tag
import WcagAudit.Proofs.Rule.Comments
import WcagAudit.Proofs.Rule.Sightings

namespace WcagAudit

open Pattern

namespace Pattern

variable {p inner : Pattern} {names : List String}

theorem isTag_tagNamed
    (inside : (anyName names ++ boundary ++ part muchOfTag).staysBefore '>') :
    IsTag (tagNamed names) (anyName names ++ boundary ++ part muchOfTag) where
  inside := inside
  run_eq t k := by simp only [tagNamed, run_append]

theorem isTag_of_run_eq
    (split : ∀ t (k : Trail → Option Match), p.run t k = (char '<' ++ inner ++ char '>').run t k)
    (inside : inner.staysBefore '>') : IsTag p inner where
  inside := inside
  run_eq t k := by rw [split, run_append, run_append]

end Pattern

namespace Rule

open Comment

def tagByTag : List Rule := [ariaLabels, ariaRequired, ariaFocusManagement, ariaKeyboardNavigation]

theorem isTag_requiredInput : IsTag Aria.requiredInput (ignoringCase "input" ++ boundary ++
    muchOfTag ++ ignoringCase "required" ++ boundary ++ muchOfTag) :=
  isTag_of_run_eq (fun t k => by simp only [Aria.requiredInput, run_append]) (by decide)

theorem isTag_altText : IsTag AltText.tag (AltText.image ++ muchOfTag) :=
  isTag_of_run_eq (fun t k => by simp only [AltText.tag, run_append]) (by decide)

theorem isTag_keyboardAccess : IsTag KeyboardAccess.tag (KeyboardAccess.interactive ++ littleOfTag) :=
  isTag_of_run_eq (fun t k => by simp only [KeyboardAccess.tag, run_append]) (by decide)

theorem sightings_of_tagByTag {r : Rule} (hr : r ∈ tagByTag) : ∃ p inner : Pattern, IsTag p inner ∧
    ∃ f : Match → Sighting, ∀ t, r.sightings t = (p.matchesIn t).map f := by
  simp only [tagByTag, List.mem_cons, List.not_mem_nil, or_false] at hr
  rcases hr with rfl | rfl | rfl | rfl
  · exact ⟨Aria.labelledTag, _, isTag_tagNamed (by decide), _, fun _ => rfl⟩
  · exact ⟨_, _, isTag_requiredInput, _, fun _ => rfl⟩
  · exact ⟨Aria.focusTag, _, isTag_tagNamed (by decide), _, fun _ => rfl⟩
  · exact ⟨Aria.keyboardTag, _, isTag_tagNamed (by decide), _, fun _ => rfl⟩

theorem sightings_of_commentFree {r : Rule} (hr : r ∈ commentFree) :
    ∃ p inner : Pattern, IsTag p inner ∧
      ∃ f : Match → Sighting, ∀ t, r.sightings t = (p.matchesIn (remove t)).map f := by
  simp only [commentFree, List.mem_cons, List.not_mem_nil, or_false] at hr
  rcases hr with rfl | rfl
  · exact ⟨AltText.tag, _, isTag_altText, _, fun _ => rfl⟩
  · exact ⟨KeyboardAccess.tag, _, isTag_keyboardAccess, _, fun _ => rfl⟩

theorem matches_remove_append {p inner : Pattern} (tag : IsTag p inner) {s : List Char}
    (closed : Closed s) (unopened : Unopened s) (t : List Char) :
    p.matchesIn (remove (s ++ t)) = p.matchesIn (remove s) ++ p.matchesIn (remove t) := by
  obtain ⟨gap, spaces, whole⟩ := remove_append unopened closed t
  have outside : '<' ∉ gap := fun h => absurd (spaces _ h) (by decide)
  rw [whole, List.append_assoc, matchesIn_append tag (closed_remove unopened closed),
    matchesIn_append tag (Closed.of_not_mem outside), matchesIn_of_not_mem tag outside,
    List.nil_append]

/-- A text of which the rule sees all, whatever stands behind it: its tags are closed, and no comment
opens in it if the rule leaves comments out. -/
structure Fragment (r : Rule) (s : List Char) : Prop where
  closed : Closed s
  unopened : r ∈ commentFree → Unopened s

theorem sightings_append {r : Rule} (hr : r ∈ tagByTag ++ commentFree) {s : List Char}
    (h : r.Fragment s) (t : List Char) :
    r.sightings (s ++ t) = r.sightings s ++ r.sightings t := by
  rcases List.mem_append.1 hr with raw | free
  · obtain ⟨p, inner, tag, f, sees⟩ := sightings_of_tagByTag raw
    rw [sees, sees, sees, matchesIn_append tag h.closed, List.map_append]
  · obtain ⟨p, inner, tag, f, sees⟩ := sightings_of_commentFree free
    rw [sees, sees, sees, matches_remove_append tag h.closed (h.unopened free), List.map_append]

section

variable {r : Rule} (hr : r ∈ tagByTag ++ commentFree)

include hr

theorem passes_append {s : List Char} (h : r.Fragment s) (t : List Char) :
    r.passes (s ++ t) = (r.passes s && r.passes t) := by
  simp only [passes_eq, Sighting.allAccepted, sightings_append hr h, List.all_append]

theorem sightings_nil : r.sightings [] = [] := by
  rcases List.mem_append.1 hr with raw | free
  · obtain ⟨p, inner, -, f, sees⟩ := sightings_of_tagByTag raw
    exact sees []
  · obtain ⟨p, inner, -, f, sees⟩ := sightings_of_commentFree free
    exact sees []

theorem passes_flatten {parts : List (List Char)} (h : ∀ s ∈ parts, r.Fragment s) :
    r.passes parts.flatten = parts.all r.passes := by
  induction parts with
  | nil => simp only [List.flatten_nil, passes_eq, sightings_nil hr, Sighting.allAccepted, List.all_nil]
  | cons s parts ih =>
    obtain ⟨first, later⟩ := List.forall_mem_cons.1 h
    rw [List.flatten_cons, passes_append hr first, ih later, List.all_cons]

/-- A rule that goes from tag to tag passes a text if it passes the fragments that the text is made of,
and says of it what it says of them.  So their order does not count, and one that fails is enough. -/
theorem fragments_compose :
    (∀ s t, r.Fragment s → r.passes (s ++ t) = (r.passes s && r.passes t) ∧
      r.events (s ++ t) = r.events s ++ r.events t) ∧
    (∀ parts parts' : List (List Char), (∀ s ∈ parts, r.Fragment s) → parts.Perm parts' →
      r.passes parts.flatten = r.passes parts'.flatten) ∧
    (∀ s element t, r.Fragment s → r.Fragment element → r.passes element = false →
      r.passes (s ++ element ++ t) = false) := by
  refine ⟨fun s t h => ⟨passes_append hr h t, ?_⟩, fun parts parts' h perm => ?_,
    fun s element t hs he fails => ?_⟩
  · simp only [events_eq, sightings_append hr h, List.flatMap_append]
  · rw [passes_flatten hr h, passes_flatten hr fun s hs => h s (perm.mem_iff.2 hs)]
    exact perm.all_eq
  · rw [List.append_assoc, passes_append hr hs, passes_append hr he, fails]
    simp

end

theorem bare_image_fails_page :
    altText ∈ tagByTag ++ commentFree ∧ altText.Fragment "1 < 2 > <img alt=> ".toList ∧
      altText.Fragment "<img src>".toList ∧ altText.passes "<img src>".toList = false ∧
      altText.passes ("1 < 2 > <img alt=> ".toList ++ "<img src>".toList ++ "/* <p".toList) = false := by
  have unopened : Unopened "1 < 2 > <img alt=> ".toList := by
    constructor <;> simp [List.infix_cons_iff]
  have unopened' : Unopened "<img src>".toList := by
    constructor <;> simp [List.infix_cons_iff]
  have before : altText.Fragment "1 < 2 > <img alt=> ".toList := ⟨by decide, fun _ => unopened⟩
  have bare : altText.Fragment "<img src>".toList := ⟨by decide, fun _ => unopened'⟩
  have fails : altText.passes "<img src>".toList = false := by decide +kernel
  have listed : altText ∈ tagByTag ++ commentFree := by decide
  exact ⟨listed, before, bare, fails, (fragments_compose listed).2.2 _ _ _ before bare fails⟩

end Rule

end WcagAudit
