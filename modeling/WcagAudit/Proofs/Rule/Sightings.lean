import WcagAudit.Proofs.Pattern.Search
import WcagAudit.Rule.Catalogue

/-! What a rule meets in a document, one sighting for each thing that its check looks at.  The flag that a
check keeps and the events that it emits are made independently of each other; both are told by its
sightings. -/

namespace WcagAudit

structure Sighting where
  accepted : Bool
  event : Event
  notice : Option Event := none

namespace Sighting

def events (s : Sighting) : List Event :=
  s.notice.toList ++ if s.accepted then [] else [s.event]

def allAccepted (found : List Sighting) : Bool := found.all accepted

variable {found : List Sighting}

theorem flatMap_events (quiet : ∀ s ∈ found, s.notice = none) :
    found.flatMap events = (found.filter (!·.accepted)).map event := by
  induction found with
  | nil => rfl
  | cons s found ih =>
    obtain ⟨first, later⟩ := List.forall_mem_cons.1 quiet
    rw [List.flatMap_cons, ih later, events, first]
    cases h : s.accepted <;> simp [h]

theorem allAccepted_iff_of_quiet (quiet : ∀ s ∈ found, s.notice = none) :
    allAccepted found ↔ found.flatMap events = [] := by
  rw [flatMap_events quiet, List.map_eq_nil_iff, List.filter_eq_nil_iff, allAccepted, List.all_eq_true]
  simp

end Sighting

open Sighting

section

variable {α β : Type _}

@[simp] theorem say_apply (e : Event) (es : List Event) : say e es = ((), es ++ [e]) := rfl

@[simp] theorem pure_apply (a : α) (es : List Event) :
    (pure a : StateM (List Event) α) es = (a, es) := rfl

@[simp] theorem bind_apply (x : StateM (List Event) α) (f : α → StateM (List Event) β)
    (es : List Event) : (x >>= f) es = f (x es).1 (x es).2 := rfl

@[simp] theorem map_apply (f : α → β) (x : StateM (List Event) α) (es : List Event) :
    (f <$> x) es = (f (x es).1, (x es).2) := rfl

end

namespace Check

/-- The verdict of the check, and what it says, are those of its sightings. -/
def Meets (c : Check) (found : List Sighting) : Prop :=
  ∀ es, c es = (allAccepted found, es ++ found.flatMap Sighting.events)

def Step (body : Bool → StateM (List Event) (ForInStep Bool)) (met : List Sighting) : Prop :=
  ∀ valid es, body valid es = (.yield (valid && allAccepted met), es ++ met.flatMap Sighting.events)

variable {α : Type _} {c c' : Check} {found found' : List Sighting}

theorem forIn_of_step {body : α → Bool → StateM (List Event) (ForInStep Bool)}
    {met : α → List Sighting} (step : ∀ a, Step (body a) (met a)) (items : List α) (valid : Bool)
    (es : List Event) : forIn items valid body es =
      (valid && allAccepted (items.flatMap met),
        es ++ (items.flatMap met).flatMap Sighting.events) := by
  induction items generalizing valid es with
  | nil => simp [allAccepted]
  | cons a items ih =>
    rw [List.forIn_cons]
    simp only [bind_apply, step a valid es, ih, List.flatMap_cons, List.flatMap_append,
      allAccepted, List.all_append, Bool.and_assoc, List.append_assoc]

theorem meets_of_step {body : α → Bool → StateM (List Event) (ForInStep Bool)}
    {met : α → List Sighting} (step : ∀ a, Step (body a) (met a)) (items : List α) :
    Meets (forIn items true body) (items.flatMap met) :=
  fun es => (forIn_of_step step items true es).trans (by rw [Bool.true_and])

theorem meets_of_map_step {body : α → Bool → StateM (List Event) (ForInStep Bool)}
    {met : α → Sighting} (step : ∀ a, Step (body a) [met a]) (items : List α) :
    Meets (forIn items true body) (items.map met) :=
  List.map_eq_flatMap ▸ meets_of_step step items

theorem step_of_map_step {body : α → Bool → StateM (List Event) (ForInStep Bool)}
    {met : α → Sighting} (step : ∀ a, Step (body a) [met a]) (items : List α) :
    Step (fun valid => forIn items valid body >>= fun valid => pure (.yield valid))
      (items.map met) := by
  intro valid es
  simp only [bind_apply, pure_apply, forIn_of_step step items valid es, List.map_eq_flatMap]

theorem step_fault (faulty : Bool) (fault : Event) :
    Step (fun valid => if faulty then say fault >>= fun _ => pure (.yield false) else pure (.yield valid))
      [{ accepted := !faulty, event := fault }] := by
  intro valid es
  cases faulty <;> simp [allAccepted, Sighting.events]

theorem meets_each (items : List α) (inOrder : α → Bool) (fault : α → Event) :
    (each items inOrder fault).Meets (items.map fun a => { accepted := inOrder a, event := fault a }) := by
  refine meets_of_map_step (fun a => ?_) items
  have step := step_fault (!inOrder a) (fault a)
  rwa [Bool.not_not] at step

theorem meets_once (found : Bool) (fault : Event) :
    (once found fault).Meets [{ accepted := found, event := fault }] := by
  intro es
  cases found <;> simp [once, allAccepted, Sighting.events]

theorem Meets.and (h : c.Meets found) (h' : c'.Meets found') (quiet : ∀ s ∈ found, s.notice = none) :
    Meets (c <&&> c') (if allAccepted found then found' else found) := by
  intro es
  simp only [andM, bind_apply, h es]
  split
  · next passes =>
    -- A part that passes has said nothing, so the next one goes on with the same log.
    rw [passes, (allAccepted_iff_of_quiet quiet).1 passes, List.append_nil]
    exact h' es
  · next fails =>
    rw [Bool.not_eq_true] at fails
    rw [fails]
    rfl

theorem Meets.restrict (h : c.Meets found) (quiet : ∀ s ∈ found, s.notice = none) :
    c.Meets (if allAccepted found then [] else found) := by
  intro es
  rw [h es]
  split
  · next passes => rw [passes, (allAccepted_iff_of_quiet quiet).1 passes]; rfl
  · rfl

end Check

namespace Aria

open Pattern

theorem property_value_ne_nil {t : List Char} {m : Match} (h : m ∈ property.matchesIn t) :
    m.part 1 ≠ [] := by
  obtain ⟨_, _, -, hat⟩ := (found_matchesIn t).mem h
  obtain ⟨e, he, -, hparts⟩ := reads_of_matchAt? hat
  simp only [property, property.someLetters, someUnquoted, unquoted, reads_append,
    reads_ignoringCase, quote, char, Reads] at he
  obtain ⟨_, ⟨_, ⟨_, ⟨_, ⟨_, ⟨-, rfl⟩, _, ⟨_, ⟨_, _, -, -, rfl⟩, _, ⟨_, _, -, -, rfl⟩, _, _, -, -, rfl⟩,
    rfl⟩, _, _, -, -, rfl⟩, _, value, -, -, rfl⟩, _, ⟨_, ⟨c, cs, hvalue, -, rfl⟩, _, _, -, -, rfl⟩,
    rfl⟩, _, _, -, -, rfl⟩ := he
  rw [Trail.rest_advance] at hvalue
  subst hvalue
  simp [Match.part, hparts, Span.text]
  omega

theorem meets_properties (t : List Char) : (properties t).Meets [] := by
  intro es
  have filled : (property.matchesIn t).all (fun m => !(m.part 1).isEmpty) = true := by
    simp only [List.all_eq_true, Bool.not_eq_true', List.isEmpty_eq_false_iff]
    exact fun m hm => property_value_ne_nil hm
  rw [properties, filled]
  simp [allAccepted]

theorem meets_roleDuplication (t : List Char) : (roleDuplication t).Meets
    ((roleValues t).flatMap fun role => conflictingRoles.map fun (primary, conflicting) =>
      { accepted :=
          !(role == primary.toList && ((quotedRole.matchesIn t).map (·.part 0)).contains conflicting.toList)
        event := .conflictingRoles role conflicting.toList }) := by
  refine Check.meets_of_step (fun role => Check.step_of_map_step (fun pair => ?_) conflictingRoles)
    (roleValues t)
  exact Check.step_fault _ _

end Aria

theorem KeyboardAccess.meets_check (t : List Char) : (KeyboardAccess.check t).Meets
    ((tag.matchesIn (Comment.remove t)).map fun m =>
      { accepted := handler.occursIn m.text, event := .notOperable m.text,
        notice := some (.evaluatingAccess m.text) }) := by
  refine Check.meets_of_map_step (fun m valid es => ?_) _
  generalize handler.occursIn m.text = operable
  cases operable <;> simp [allAccepted, Sighting.events]

namespace Rule

def ariaParts : List Rule :=
  [ariaLabels, ariaRequired, ariaRoles, ariaProperties, ariaErrors, ariaLandmarks]

def met (t : List Char) : Rule → List Sighting
  | altText => (AltText.tag.matchesIn (Comment.remove t)).map fun m =>
      { accepted := AltText.alternative.occursIn m.text, event := .missingAlt m.text }
  | ariaLabels => (Aria.labelledTag.matchesIn t).map fun m =>
      { accepted := Aria.labelAttribute.occursIn (m.part 0), event := .missingLabel m.text }
  | ariaRequired => (Aria.requiredInput.matchesIn t).map fun m =>
      { accepted := Aria.requiredMark.occursIn m.text, event := .missingRequiredMark m.text }
  | ariaFocusManagement => (Aria.focusTag.matchesIn t).map fun m =>
      { accepted := !(Aria.hidden.occursIn (m.part 0) || Aria.negativeTabindex.occursIn (m.part 0))
        event := .hiddenFromFocus m.text }
  | ariaRoles => (Aria.roleValues t).map fun role =>
      { accepted := Aria.validRoles.any (·.toList == role), event := .invalidRole role }
  | ariaErrors => [{
      accepted := Aria.invalidMark.occursIn t || Aria.alertRole.occursIn t
      event := .noErrorIdentification }]
  | ariaLandmarks => (Aria.roleValues t).map fun role =>
      { accepted := Aria.landmarkRoles.any (·.toList == role), event := .notLandmark role }
  | ariaLiveRegions => [{ accepted := Aria.liveRegion.occursIn t, event := .noLiveRegion }]
  | ariaKeyboardNavigation => (Aria.keyboardTag.matchesIn t).map fun m =>
      { accepted := Aria.numericTabindex.occursIn (m.part 0), event := .missingTabindex m.text }
  | ariaRelationships => (Aria.reference.matchesIn t).map fun m =>
      { accepted := ((Aria.idAttribute.matchesIn t).map (·.part 0)).contains (m.part 1)
        event := .danglingReference (m.part 0) (m.part 1) }
  | ariaRoleDuplication => (Aria.roleValues t).flatMap fun role => Aria.conflictingRoles.map fun pair =>
      { accepted := !(role == pair.1.toList &&
          ((Aria.quotedRole.matchesIn t).map (·.part 0)).contains pair.2.toList)
        event := .conflictingRoles role pair.2.toList }
  | keyboardAccess => (KeyboardAccess.tag.matchesIn (Comment.remove t)).map fun m =>
      { accepted := KeyboardAccess.handler.occursIn m.text, event := .notOperable m.text
        notice := some (.evaluatingAccess m.text) }
  | aria | ariaProperties => []

/-- What a rule meets in a document.  The rule `aria` shows what its first failing part meets. -/
def sightings (t : List Char) : Rule → List Sighting
  | aria => (ariaParts.find? fun r => !r.passes t).elim [] (·.met t)
  | r => r.met t

variable {r : Rule} {t : List Char}

theorem sightings_of_ne_aria (hr : r ≠ aria) : r.sightings t = r.met t := by
  cases r <;> first | rfl | exact absurd rfl hr

theorem quiet_map {α : Type _} {f : α → Sighting} (quiet : ∀ a, (f a).notice = none) (l : List α) :
    ∀ s ∈ l.map f, s.notice = none := by
  intro s hs
  obtain ⟨a, -, rfl⟩ := List.mem_map.1 hs
  exact quiet a

theorem quiet_met (hr : r ≠ keyboardAccess) : ∀ s ∈ r.met t, s.notice = none := by
  cases r with
  | keyboardAccess => exact absurd rfl hr
  | aria | ariaProperties => exact List.forall_mem_nil _
  | ariaErrors | ariaLiveRegions => exact List.forall_mem_singleton.2 rfl
  | ariaRoleDuplication =>
    intro s hs
    obtain ⟨role, -, hs⟩ := List.mem_flatMap.1 hs
    exact quiet_map (fun _ => rfl) _ s hs
  | _ => exact quiet_map (fun _ => rfl) _

theorem ne_of_mem_ariaParts (listed : r ∈ ariaParts) : r ≠ aria ∧ r ≠ keyboardAccess := by
  constructor <;> rintro rfl <;> exact absurd listed (by decide)

theorem quiet_sightings (hr : r ≠ keyboardAccess) : ∀ s ∈ r.sightings t, s.notice = none := by
  -- The rule `aria` meets what one of its parts meets.
  by_cases whole : r = aria
  · subst whole
    rw [sightings]
    cases first : ariaParts.find? fun r => !r.passes t with
    | none => exact List.forall_mem_nil _
    | some r => exact quiet_met (ne_of_mem_ariaParts (List.mem_of_find?_eq_some first)).2
  · exact sightings_of_ne_aria whole ▸ quiet_met hr

theorem meets_met (hr : r ≠ aria) : (r.check t).Meets (r.met t) := by
  cases r with
  | aria => exact absurd rfl hr
  | ariaProperties => exact Aria.meets_properties t
  | ariaErrors | ariaLiveRegions => exact Check.meets_once _ _
  | ariaRoleDuplication => exact Aria.meets_roleDuplication t
  | keyboardAccess => exact KeyboardAccess.meets_check t
  | _ => exact Check.meets_each _ _ _

theorem passes_eq_met (hr : r ≠ aria) : r.passes t = allAccepted (r.met t) :=
  congrArg Prod.fst (meets_met hr [])

theorem elim_find?_cons (hr : r ≠ aria) (rs : List Rule) :
    ((r :: rs).find? fun r => !r.passes t).elim [] (·.met t) =
      if allAccepted (r.met t) then (rs.find? fun r => !r.passes t).elim [] (·.met t) else r.met t := by
  rw [List.find?_cons, passes_eq_met hr]
  cases allAccepted (r.met t) <;> rfl

theorem meets_aria : (aria.check t).Meets (aria.sightings t) := by
  rw [sightings, ariaParts]
  iterate 6 rw [elim_find?_cons (by decide)]
  rw [List.find?_nil, Option.elim_none]
  refine (meets_met (r := ariaLabels) nofun).and ?_ (quiet_met nofun)
  refine (meets_met (r := ariaRequired) nofun).and ?_ (quiet_met nofun)
  refine (meets_met (r := ariaRoles) nofun).and ?_ (quiet_met nofun)
  refine (meets_met (r := ariaProperties) nofun).and ?_ (quiet_met nofun)
  refine (meets_met (r := ariaErrors) nofun).and ?_ (quiet_met nofun)
  exact (meets_met (r := ariaLandmarks) nofun).restrict (quiet_met nofun)

theorem meets_check : (r.check t).Meets (r.sightings t) := by
  by_cases whole : r = aria
  · exact whole ▸ meets_aria
  · exact sightings_of_ne_aria whole ▸ meets_met whole

theorem passes_eq : r.passes t = allAccepted (r.sightings t) :=
  congrArg Prod.fst (meets_check [])

theorem events_eq : r.events t = (r.sightings t).flatMap Sighting.events :=
  congrArg Prod.snd (meets_check [])

theorem passes_iff_events_eq_nil (hr : r ≠ keyboardAccess) : r.passes t ↔ r.events t = [] := by
  rw [passes_eq, events_eq]
  exact allAccepted_iff_of_quiet (quiet_sightings hr)

theorem events_aria :
    aria.events t = (ariaParts.find? fun r => !r.passes t).elim [] fun r => r.events t := by
  rw [events_eq, sightings]
  cases first : ariaParts.find? fun r => !r.passes t with
  | none => rfl
  | some r =>
    have part := (ne_of_mem_ariaParts (List.mem_of_find?_eq_some first)).1
    rw [Option.elim_some, Option.elim_some, events_eq, sightings_of_ne_aria part]

theorem passes_ariaProperties (t : List Char) : ariaProperties.passes t := passes_eq

theorem passes_aria_iff : aria.passes t ↔ ariaLabels.passes t ∧ ariaRequired.passes t ∧
    ariaRoles.passes t ∧ ariaProperties.passes t ∧ ariaErrors.passes t ∧ ariaLandmarks.passes t := by
  have parts : aria.passes t ↔ ∀ r ∈ ariaParts, r.passes t := by
    rw [passes_eq, sightings]
    cases first : ariaParts.find? fun r => !r.passes t with
    | none => simpa [allAccepted] using first
    | some r =>
      have listed := List.mem_of_find?_eq_some first
      have fails := List.find?_some first
      rw [Option.elim_some, ← passes_eq_met (ne_of_mem_ariaParts listed).1]
      exact iff_of_false (by simpa using fails) fun all => by simp [all r listed] at fails
  simpa [ariaParts] using parts

end Rule

end WcagAudit
