import WcagAudit.Proofs.Rule.Roles

namespace WcagAudit

namespace Aria

open Pattern

theorem matchAt?_roleAttribute_of_quotedRole {before : Char} {cs : List Char} {m : Match}
    (h : quotedRole.matchAt? before cs = some m) : roleAttribute.matchAt? before cs = some m := by
  obtain ⟨q, x, q', v, rfl, hq, hq', hx, rfl⟩ := quotedRole_of_matchAt? h
  rw [quotedText_append, matchAt?_roleAttribute before _ rfl, roleValue_quoted hq hq' hx,
    roleText_quoted hq hq' hx, quotedText_eq]

/-- The role stands in the text in quotes, right behind `role=` in small letters. -/
def QuotedIn (t x : List Char) : Prop :=
  ∃ q q', isQuote q ∧ isQuote q' ∧ quotedText q x q' <:+: t

def Apart (t : List Char) : Prop := ∀ role ∈ roleValues t, ¬"role=".toList <:+ role

theorem mem_quotedRole_iff {t x : List Char} (apart : Apart t) (hx : x.all (!isQuote ·)) :
    x ∈ (quotedRole.matchesIn t).map (·.part 0) ↔ QuotedIn t x := by
  constructor
  · intro h
    obtain ⟨u, v, q, q', rfl, hq, hq', -⟩ := exists_of_mem_quotedRole h
    exact ⟨q, q', hq, hq', u, v, by simp [quotedText_eq]⟩
  · rintro ⟨q, q', hq, hq', u, v, rfl⟩
    rw [List.append_assoc] at apart ⊢
    have found := matchAt?_quotedRole hq hq' hx (u.getLastD ' ') v
    rcases matchesIn_covers found (by simp [quotedText_eq]) with
      hm | ⟨m, hm, u₁, u₂, -, hu₂, hat, hlt⟩
    · exact List.mem_map.2 ⟨_, hm, rfl⟩
    · rw [quotedText_append] at hat
      obtain ⟨y, value⟩ :=
        swallowed_of_overlap rfl (matchAt?_roleAttribute_of_quotedRole hat) hu₂ hlt
      have closed : (q :: x ++ q' :: v).takeWhile (!isQuote ·) = [] := by simp [hq]
      rw [closed, List.append_nil] at value
      obtain ⟨role, seen, same | ends⟩ := roleValues_of_quoted (List.mem_map_of_mem hm)
      · refine absurd ⟨trimStart y, ?_⟩ (apart role seen)
        rw [same, value, trim_append_name]
      · exact absurd ends (apart role seen)

theorem mem_roleValues_of_quotedIn {t x : List Char} (apart : Apart t) (hx : x.all (!isQuote ·))
    (trimmed : trim x = x) (h : QuotedIn t x) : x ∈ roleValues t := by
  obtain ⟨role, seen, same | ends⟩ := roleValues_of_quoted ((mem_quotedRole_iff apart hx).2 h)
  · rwa [same, trimmed] at seen
  · exact absurd ends (apart role seen)

end Aria

namespace Rule

open Aria

/-- A document whose roles are all valid has none in conflict.  Where two are in conflict, a role shows
that is not valid: the second of the two, or one that ends with the name of an attribute. -/
theorem conflict_shows_invalid_role (t : List Char) :
    (ariaRoles.passes t → ariaRoleDuplication.passes t) ∧
    (¬ariaRoleDuplication.passes t → ∃ pair ∈ conflictingRoles, pair.1.toList ∈ roleValues t ∧
      ∃ role ∈ roleValues t, (∀ name ∈ validRoles, name.toList ≠ role) ∧
        (role = pair.2.toList ∨ "role=".toList <:+ role)) := by
  refine ⟨passes_ariaRoleDuplication, fun fails => ?_⟩
  simp only [passes_ariaRoleDuplication_iff, not_forall, not_not] at fails
  obtain ⟨pair, listed, first, quoted⟩ := fails
  exact ⟨pair, listed, first, invalid_of_quoted listed quoted⟩

set_option maxRecDepth 10000 in
example : roleValues "<i role='button'><p ROLE=x role='link'>".toList =
    ["button".toList, "x role=".toList] := by decide

set_option maxRecDepth 10000 in
theorem swallowed_link_shows :
    let page := "<i role='button'><p ROLE=x role='link'>".toList
    ¬ariaRoleDuplication.passes page ∧
      ∃ pair ∈ conflictingRoles, pair.1.toList ∈ roleValues page ∧
        ∃ role ∈ roleValues page, (∀ name ∈ validRoles, name.toList ≠ role) ∧
          (role = pair.2.toList ∨ "role=".toList <:+ role) := by
  intro page
  have fails : ¬ariaRoleDuplication.passes page := by decide +kernel
  exact ⟨fails, (conflict_shows_invalid_role page).2 fails⟩

theorem unquoted_conflicting :
    ∀ pair ∈ conflictingRoles, pair.2.toList.all (!Pattern.isQuote ·) := by decide

theorem fails_ariaRoleDuplication_iff {t : List Char} (apart : Apart t) :
    ¬ariaRoleDuplication.passes t ↔ ∃ pair ∈ conflictingRoles,
      pair.1.toList ∈ roleValues t ∧ QuotedIn t pair.2.toList := by
  simp only [passes_ariaRoleDuplication_iff, not_forall, not_not, exists_prop]
  exact exists_congr fun pair => and_congr_right fun listed => and_congr_right fun _ =>
    mem_quotedRole_iff apart (unquoted_conflicting pair listed)

theorem fails_ariaRoleDuplication_iff_both {t : List Char} (apart : Apart t)
    (plain : ∀ pair ∈ conflictingRoles, pair.1.toList ∈ roleValues t → pair.2.toList ∈ roleValues t →
      QuotedIn t pair.2.toList) :
    ¬ariaRoleDuplication.passes t ↔ ∃ pair ∈ conflictingRoles,
      pair.1.toList ∈ roleValues t ∧ pair.2.toList ∈ roleValues t := by
  rw [fails_ariaRoleDuplication_iff apart]
  constructor
  · rintro ⟨pair, listed, first, second⟩
    have there := mem_roleValues_of_quotedIn apart (unquoted_conflicting pair listed)
      (trim_conflicting pair listed) second
    exact ⟨pair, listed, first, there⟩
  · rintro ⟨pair, listed, first, second⟩
    exact ⟨pair, listed, first, plain pair listed first second⟩

/-- The rule on conflicts finds two roles in conflict where the first is among the roles of the document
and the second is spelled with quotes, right behind `role=`.  So it tells just whether both are there, in
whatever order, as long as the second of such two is always spelled so once. -/
theorem conflict_iff_both_there {t : List Char} (apart : Apart t) :
    (¬ariaRoleDuplication.passes t ↔ ∃ pair ∈ conflictingRoles,
      pair.1.toList ∈ roleValues t ∧ QuotedIn t pair.2.toList) ∧
    ((∀ pair ∈ conflictingRoles, pair.1.toList ∈ roleValues t → pair.2.toList ∈ roleValues t →
        QuotedIn t pair.2.toList) →
      (¬ariaRoleDuplication.passes t ↔ ∃ pair ∈ conflictingRoles,
        pair.1.toList ∈ roleValues t ∧ pair.2.toList ∈ roleValues t)) :=
  ⟨fails_ariaRoleDuplication_iff apart, fails_ariaRoleDuplication_iff_both apart⟩

theorem link_before_button_found :
    let page := "<i role='link'><p rOle=' button '>".toList
    Apart page ∧
      (∀ pair ∈ conflictingRoles, pair.1.toList ∈ roleValues page →
        pair.2.toList ∈ roleValues page → QuotedIn page pair.2.toList) ∧
      ¬ariaRoleDuplication.passes page := by
  intro page
  have values : roleValues page = ["link".toList, "button".toList] := by decide
  have apart : Apart page := by
    rw [Apart, values]
    decide
  have spelled : QuotedIn page "link".toList :=
    ⟨'\x27', '\x27', rfl, rfl, "<i ".toList, "><p rOle=' button '>".toList, rfl⟩
  have plain : ∀ pair ∈ conflictingRoles, pair.1.toList ∈ roleValues page →
      pair.2.toList ∈ roleValues page → QuotedIn page pair.2.toList := by
    simp only [conflictingRoles, List.forall_mem_cons, values]
    exact ⟨fun _ _ => spelled, fun first => absurd first (by decide), fun _ h => by cases h⟩
  have both : ∃ pair ∈ conflictingRoles, pair.1.toList ∈ roleValues page ∧
      pair.2.toList ∈ roleValues page := by
    refine ⟨("button", "link"), by decide, ?_⟩
    rw [values]
    decide
  exact ⟨apart, plain, ((conflict_iff_both_there apart).2 plain).2 both⟩

theorem spaced_link_unseen :
    let page := "<a role='button'><i role=' link '>".toList
    ("button", "link") ∈ conflictingRoles ∧ "button".toList ∈ roleValues page ∧
      "link".toList ∈ roleValues page ∧ ariaRoleDuplication.passes page := by
  decide +kernel

end Rule
end WcagAudit
