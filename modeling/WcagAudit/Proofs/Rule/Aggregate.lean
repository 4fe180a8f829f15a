import WcagAudit.Proofs.Scan.Release

namespace WcagAudit

theorem length_trim_le (t : List Char) : (trim t).length ≤ t.length := by
  have front := (List.dropWhile_suffix (l := t) isBlank).length_le
  have back := (List.dropWhile_suffix (l := (trimStart t).reverse) isBlank).length_le
  rw [List.length_reverse] at back
  rw [trim, trimEnd, List.length_reverse]
  exact Nat.le_trans back front

namespace Aria

open Pattern

def MarksInvalid (t : List Char) : Prop :=
  ∃ u name mark value v, t = u ++ (name ++ mark ++ value ++ v) ∧
    sameAscii name "aria-invalid=".toList ∧ mark ∈ [[], ['"'], ['\x27']] ∧
    sameAscii value "true".toList

theorem occursIn_invalidMark {t : List Char} : invalidMark.occursIn t ↔ MarksInvalid t := by
  have name (w : List Char) : w.map foldLetter = "aria-invalid=".toList.map foldLetter ↔
      sameAscii w "aria-invalid=".toList := map_foldLetter_eq_iff (by decide)
  have value (w : List Char) : w.map foldLetter = "true".toList.map foldLetter ↔
      sameAscii w "true".toList := map_foldLetter_eq_iff (by decide)
  rw [invalidMark, occursIn_append_idle optional_idle]
  simp only [occursIn_iff, reads_append, reads_ignoringCase, reads_optional_quote, name, value]
  constructor
  · rintro ⟨u, _, _, rfl, _, ⟨_, ⟨w, _, rfl, hw, rfl⟩, mark, _, rfl, hmark, rfl⟩, x, v, rfl, hx, rfl⟩
    exact ⟨u, w, mark, x, v, by simp, hw, hmark, hx⟩
  · rintro ⟨u, w, mark, x, v, rfl, hw, hmark, hx⟩
    exact ⟨u, _, _, rfl, _, ⟨_, ⟨w, mark ++ (x ++ v), by simp, hw, rfl⟩, mark, x ++ v, rfl, hmark, rfl⟩,
      x, v, rfl, hx, rfl⟩

theorem exists_of_occursIn_alertRole {t : List Char} (h : alertRole.occursIn t) :
    ∃ u letters x v q q', t = u ++ (letters ++ ['='] ++ (q :: x ++ q' :: v)) ∧
      SpellsRole (letters ++ ['=']) ∧ isQuote q ∧ isQuote q' ∧
      x.map foldLetter = "alert".toList.map foldLetter := by
  obtain ⟨u, _, _, rfl, hw⟩ := occursIn_iff.1 h
  simp only [alertRole, attributeIs, anyName, List.map_cons, List.map_nil, firstOf, reads_append,
    reads_ignoringCase, quote, char, Reads, beq_iff_eq] at hw
  obtain ⟨_, ⟨_, ⟨_, ⟨_, ⟨letters, _, rfl, hletters, rfl⟩, _, _, rfl, rfl, rfl⟩, q, _, rfl, hq, rfl⟩,
    x, _, rfl, hx, rfl⟩, q', v, rfl, hq', rfl⟩ := hw
  refine ⟨u, letters, x, v, q, q', by simp, ?_, hq, hq', hx⟩
  rw [SpellsRole, List.map_append, hletters]
  rfl

/-- A document with an alert has a role other than the regions: the alert, or the value of an earlier
role that runs up to it. -/
theorem alertRole_shadowed {t : List Char} (h : ∀ role ∈ roleValues t, role = "region".toList) :
    alertRole.occursIn t = false := by
  rw [Bool.eq_false_iff]
  intro found
  obtain ⟨u, letters, x, v, q, q', rfl, hspells, hq, hq', hx⟩ := exists_of_occursIn_alertRole found
  have unquoted : x.all (!isQuote ·) :=
    List.all_eq_true.2 (unquoted_of_map_foldLetter hx (by decide))
  obtain ⟨role, hrole, hshape⟩ := roleValues_of_spelled (u := u) (v := v) hspells hq hq' unquoted
  cases h role hrole
  rcases hshape with htrim | ⟨y, hy⟩
  · have short := length_trim_le x
    have length : x.length = 5 := by simpa using congrArg List.length hx
    rw [← htrim, length] at short
    exact absurd short (by decide)
  · have last := congrArg List.getLast? hy
    simp at last

set_option maxRecDepth 4000 in
example : alertRole.occursIn "<p role=region role='alert'>".toList ∧
    roleValues "<p role=region role='alert'>".toList = ["region role=".toList] := by decide

end Aria

namespace Rule

open Aria

theorem valid_landmark : ∀ name ∈ validRoles, ∀ name' ∈ landmarkRoles,
    name.toList = name'.toList → name.toList = "region".toList := by decide

theorem passes_roles_and_landmarks_iff {t : List Char} :
    ariaRoles.passes t ∧ ariaLandmarks.passes t ↔ ∀ role ∈ roleValues t, role = "region".toList := by
  rw [passes_ariaRoles_iff, passes_ariaLandmarks_iff, ← forall₂_and]
  apply forall₂_congr
  intro role _
  constructor
  · rintro ⟨⟨name, hname, rfl⟩, name', hname', same⟩
    exact valid_landmark name hname name' hname' same.symm
  · rintro rfl
    exact ⟨⟨"region", by decide, rfl⟩, "region", by decide, rfl⟩

theorem passes_ariaErrors_iff {t : List Char} :
    ariaErrors.passes t ↔ MarksInvalid t ∨ alertRole.occursIn t := by
  simp [passes_eq, sightings, met, Sighting.allAccepted, ← occursIn_invalidMark]

/-- What the rule `aria` comes to.  Its part on properties is idle, and its part on errors looks for
alerts in vain: where the parts on roles and landmarks pass, there are none. -/
theorem passes_aria_closed_form (t : List Char) :
    (aria.passes t ↔ ariaLabels.passes t ∧ ariaRequired.passes t ∧
      (∀ role ∈ roleValues t, role = "region".toList) ∧ MarksInvalid t) ∧
    ariaProperties.passes t ∧
    (ariaRoles.passes t → ariaLandmarks.passes t → alertRole.occursIn t = false) := by
  have noAlert (h : ariaRoles.passes t ∧ ariaLandmarks.passes t) : alertRole.occursIn t = false :=
    alertRole_shadowed (passes_roles_and_landmarks_iff.1 h)
  refine ⟨?_, passes_ariaProperties t, fun hroles hlandmarks => noAlert ⟨hroles, hlandmarks⟩⟩
  rw [passes_aria_iff, ← passes_roles_and_landmarks_iff, passes_ariaErrors_iff]
  constructor
  · rintro ⟨hlabels, hrequired, hroles, -, herrors, hlandmarks⟩
    have marked : MarksInvalid t := by simpa [noAlert ⟨hroles, hlandmarks⟩] using herrors
    exact ⟨hlabels, hrequired, ⟨hroles, hlandmarks⟩, marked⟩
  · rintro ⟨hlabels, hrequired, ⟨hroles, hlandmarks⟩, marked⟩
    exact ⟨hlabels, hrequired, hroles, passes_ariaProperties t, .inl marked, hlandmarks⟩

theorem region_with_mark_passes :
    let page := "<input role=' region ' required aria-required='true' aria-label='a' ARIA-invalid=True>"
    aria.passes page.toList ∧ ariaRoles.passes page.toList ∧ ariaLandmarks.passes page.toList ∧
      alertRole.occursIn page.toList = false := by
  intro page
  obtain ⟨aggregate, -, noAlert⟩ := passes_aria_closed_form page.toList
  have roles : ariaRoles.passes page.toList := by decide +kernel
  have landmarks : ariaLandmarks.passes page.toList := by decide +kernel
  have marked : MarksInvalid page.toList := occursIn_invalidMark.1 (by decide +kernel)
  exact ⟨aggregate.2 ⟨by decide +kernel, by decide +kernel, by decide +kernel, marked⟩, roles, landmarks,
    noAlert roles landmarks⟩

end Rule
end WcagAudit
