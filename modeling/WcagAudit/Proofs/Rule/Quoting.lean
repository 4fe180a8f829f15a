import WcagAudit.Proofs.Rule.Conflicts

namespace WcagAudit

namespace Aria

open Pattern

inductive Quoting where
  | bare
  | double
  | single
  deriving DecidableEq

def Quoting.mark : Quoting → List Char
  | bare => []
  | double => ['"']
  | single => ['\x27']

structure RoleTag where
  role : List Char
  quoting : Quoting
  letters : role.all Char.isAlpha := by decide

def opening : List Char := "<div role=".toList

def RoleTag.text (tag : RoleTag) : List Char :=
  opening ++ tag.quoting.mark ++ tag.role ++ tag.quoting.mark ++ ['>']

def page (tags : List RoleTag) : List Char := tags.flatMap RoleTag.text

/-- The roles that are read in a page, from a place where a role without quotes is still running or from
one where none is. -/
def rolesRead : Option (List Char) → List RoleTag → List (List Char)
  | none, [] => []
  | some value, [] => [value]
  | none, tag :: tags =>
    if tag.quoting = .bare then rolesRead (some (tag.role ++ ['>'])) tags
    else tag.role :: rolesRead none tags
  | some value, tag :: tags =>
    if tag.quoting = .bare then rolesRead (some (value ++ tag.text)) tags
    else (value ++ opening) :: rolesRead none tags

theorem page_cons (tag : RoleTag) (tags : List RoleTag) : page (tag :: tags) = tag.text ++ page tags :=
  rfl

structure Plain (v : List Char) : Prop where
  unquoted : v.all (!isQuote ·)
  opens : ∃ c ∈ v.head?, ¬isBlank c
  ends : ∃ c ∈ v.getLast?, ¬isBlank c

namespace Plain

variable {v w : List Char}

theorem append (hv : Plain v) (hw : Plain w) : Plain (v ++ w) := by
  obtain ⟨c, opens, hc⟩ := hv.opens
  obtain ⟨d, ends, hd⟩ := hw.ends
  refine ⟨?_, ⟨c, ?_, hc⟩, ⟨d, ?_, hd⟩⟩
  · rw [List.all_append, hv.unquoted, hw.unquoted]
    rfl
  · rw [List.head?_append, Option.mem_def.1 opens]
    rfl
  · rw [List.getLast?_append, Option.mem_def.1 ends]
    rfl

theorem trim_eq (hv : Plain v) : trim v = v := by
  obtain ⟨c, opens, hc⟩ := hv.opens
  obtain ⟨d, ends, hd⟩ := hv.ends
  refine trim_eq_self (fun x hx => ?_) (fun x hx => ?_)
  · rwa [Option.mem_unique hx opens]
  · rwa [Option.mem_unique hx ends]

end Plain

theorem matchAt?_before (before before' : Char) (cs : List Char) :
    roleAttribute.matchAt? before cs = roleAttribute.matchAt? before' cs := by
  ext m
  constructor <;>
  · intro h
    obtain ⟨name, rest, rfl, spelled, rfl⟩ := spellsRole_of_matchAt? h
    exact matchAt?_roleAttribute _ rest spelled

theorem matchesFrom_before (before before' : Char) (cs : List Char) :
    roleAttribute.matchesFrom 0 before cs = roleAttribute.matchesFrom 0 before' cs := by
  cases cs with
  | nil => rfl
  | cons c cs => rw [matchesFrom, matchesFrom, matchAt?_before before before']

theorem SpellsRole.equals_mem {name : List Char} (h : SpellsRole name) : '=' ∈ name := by
  have folded : '=' ∈ name.map foldLetter := by simp [h.folds]
  obtain ⟨c, hc, folds⟩ := List.mem_map.1 folded
  rwa [← (foldLetter_eq_iff_of_not_alpha (by decide) rfl).1 folds]

theorem matchAt?_pass {y : List Char} {e : Char} (hy : '=' ∉ y)
    (he : foldLetter e ∉ ['r', 'o', 'l', 'e', '=']) (before : Char) (cs : List Char) :
    roleAttribute.matchAt? before (y ++ e :: cs) = none := by
  by_contra some
  obtain ⟨m, hm⟩ := Option.ne_none_iff_exists'.1 some
  obtain ⟨name, rest, split, spelled, -⟩ := spellsRole_of_matchAt? hm
  rcases List.append_eq_append_iff.1 split with ⟨z, rfl, hz⟩ | ⟨z, rfl, -⟩
  · cases z with
    | nil => exact hy (List.append_nil y ▸ spelled.equals_mem)
    | cons d z =>
      obtain ⟨rfl, -⟩ := List.cons_eq_cons.1 hz
      exact he (spelled.folds ▸ List.mem_map_of_mem (by simp))
  · exact hy (List.mem_append_left z spelled.equals_mem)

theorem roleValues_pass {y : List Char} {e : Char} (hy : '=' ∉ y)
    (he : foldLetter e ∉ ['r', 'o', 'l', 'e', '=']) (cs : List Char) :
    roleValues (y ++ e :: cs) = roleValues cs := by
  have passed (before : Char) : roleAttribute.matchesFrom 0 before (y ++ e :: cs) =
      roleAttribute.matchesFrom 0 e cs := by
    induction y generalizing before with
    | nil =>
      have none := matchAt?_pass hy he before cs
      rw [List.nil_append] at none
      simp only [List.nil_append, matchesFrom, none]
    | cons c y ih =>
      have none := matchAt?_pass hy he before cs
      rw [List.cons_append] at none
      simp only [List.cons_append, matchesFrom, none]
      exact ih (fun h => hy (.tail c h)) c
  rw [roleValues, matchesIn, passed, matchesFrom_before e ' ']
  rfl

theorem roleValues_name (rest : List Char) :
    roleValues ("role=".toList ++ rest) = trim (roleValue rest) ::
      roleValues (afterQuote ((afterQuote rest).dropWhile (!isQuote ·))) := by
  have found : roleAttribute.matchAt? ' ' ("role=".toList ++ rest) = _ :=
    matchAt?_roleAttribute ' ' rest rfl
  rw [← roleText_append] at found ⊢
  rw [roleValues, matchesIn, matchesFrom_match found rfl (by simp [roleText]),
    matchesFrom_before _ ' ']
  rfl

theorem roleValues_plain {v w : List Char} (hv : Plain v) (closed : ∀ c ∈ w.head?, isQuote c) :
    roleValues ("role=".toList ++ (v ++ w)) = v :: roleValues (afterQuote w) := by
  have inside : ∀ c ∈ v, !isQuote c := List.all_eq_true.1 hv.unquoted
  have ends : ∀ c ∈ w.head?, ¬!isQuote c := fun c hc => by simp [closed c hc]
  have bare : afterQuote (v ++ w) = v ++ w := by
    obtain ⟨c, opens, -⟩ := hv.opens
    obtain ⟨v, rfl⟩ := List.head?_eq_some_iff.1 opens
    exact afterQuote_of_not (by simpa using inside c (.head v)) (v ++ w)
  rw [roleValues_name, roleValue, bare, takeWhile_run inside ends, dropWhile_run inside ends, hv.trim_eq]

theorem roleValues_quoted {x v : List Char} {q q' : Char} (hq : isQuote q) (hq' : isQuote q')
    (hx : x.all (!isQuote ·)) :
    roleValues ("role=".toList ++ (q :: x ++ q' :: v)) = trim x :: roleValues v := by
  rw [roleValues_name, roleValue_quoted hq hq' hx, behind_quoted hq hq' hx, afterQuote_cons hq']

namespace RoleTag

variable (tag : RoleTag)

theorem not_mem_role {c : Char} (h : ¬c.isAlpha) : c ∉ tag.role :=
  fun there => h (List.all_eq_true.1 tag.letters c there)

theorem unquoted_role : tag.role.all (!isQuote ·) := by
  rw [List.all_eq_true]
  intro c hc
  simp only [isQuote, Bool.not_eq_true', Bool.or_eq_false_iff, beq_eq_false_iff_ne]
  constructor <;>
  · rintro rfl
    exact tag.not_mem_role (by decide) hc

theorem word_role : ∀ c ∈ tag.role, ¬isBlank c :=
  fun c hc => not_isBlank_of_isAlpha (List.all_eq_true.1 tag.letters c hc)

theorem trim_role : trim tag.role = tag.role :=
  trim_eq_self (fun c hc => tag.word_role c (List.mem_of_mem_head? hc))
    (fun c hc => tag.word_role c (List.mem_of_mem_getLast? hc))

theorem plain_bare : Plain (tag.role ++ ['>']) := by
  refine ⟨?_, ?_, '>', by simp, by decide⟩
  · rw [List.all_append, tag.unquoted_role]
    rfl
  · cases h : tag.role with
    | nil => exact ⟨'>', rfl, by decide⟩
    | cons c role => exact ⟨c, rfl, tag.word_role c (by simp [h])⟩

variable {tag}

theorem text_bare (h : tag.quoting = .bare) : tag.text = opening ++ (tag.role ++ ['>']) := by
  simp [text, h, Quoting.mark]

theorem text_quoted (h : tag.quoting ≠ .bare) :
    ∃ q, isQuote q ∧ tag.text = opening ++ (q :: tag.role ++ q :: ['>']) := by
  cases hq : tag.quoting with
  | bare => exact absurd hq h
  | double => exact ⟨'"', rfl, by simp [text, hq, Quoting.mark]⟩
  | single => exact ⟨'\x27', rfl, by simp [text, hq, Quoting.mark]⟩

end RoleTag

theorem plain_opening : Plain opening :=
  ⟨by decide, ⟨'<', rfl, by decide⟩, ⟨'=', rfl, by decide⟩⟩

theorem roleValues_opening (cs : List Char) :
    roleValues (opening ++ cs) = roleValues ("role=".toList ++ cs) :=
  roleValues_pass (y := "<div".toList) (e := ' ') (by decide) (by decide) ("role=".toList ++ cs)

/-- A page is read tag by tag, and all that has to be known of the tags before is what of them is still
running. -/
theorem roleValues_page (tags : List RoleTag) : roleValues (page tags) = rolesRead none tags ∧
    ∀ v, Plain v → roleValues ("role=".toList ++ (v ++ page tags)) = rolesRead (some v) tags := by
  -- A bare role leaves a value running, so each half needs the other for the tags that follow.
  induction tags with
  | nil => exact ⟨rfl, fun v hv => roleValues_plain hv (by simp [page])⟩
  | cons tag tags ih =>
    obtain ⟨fresh, running⟩ := ih
    by_cases h : tag.quoting = .bare
    · simp only [rolesRead, if_pos h, page_cons]
      constructor
      · rw [tag.text_bare h, List.append_assoc, roleValues_opening]
        exact running _ tag.plain_bare
      · intro v hv
        have plain : Plain tag.text := by
          rw [tag.text_bare h]
          exact plain_opening.append tag.plain_bare
        rw [← List.append_assoc v]
        exact running _ (hv.append plain)
    · obtain ⟨q, hq, text⟩ := tag.text_quoted h
      have close (y : List Char) (hy : '=' ∉ y) : roleValues (y ++ '>' :: page tags) =
          rolesRead none tags := (roleValues_pass hy (by decide) _).trans fresh
      simp only [rolesRead, if_neg h, page_cons, text]
      constructor
      · have split : opening ++ (q :: tag.role ++ q :: ['>']) ++ page tags =
            opening ++ (q :: tag.role ++ q :: ([] ++ '>' :: page tags)) := by simp
        rw [split, roleValues_opening, roleValues_quoted hq hq tag.unquoted_role, tag.trim_role,
          close [] (List.not_mem_nil)]
      · intro v hv
        -- The opening quote ends the value that is running, so the role behind it is passed unread.
        have split : v ++ (opening ++ (q :: tag.role ++ q :: ['>']) ++ page tags) =
            (v ++ opening) ++ (q :: ((tag.role ++ [q]) ++ '>' :: page tags)) := by simp
        rw [split, roleValues_plain (hv.append plain_opening) (by simp [hq])]
        have apart : '=' ∉ tag.role ++ [q] := by
          rw [List.mem_append, List.mem_singleton, not_or]
          refine ⟨tag.not_mem_role (by decide), ?_⟩
          rintro rfl
          exact absurd hq (by decide)
        rw [afterQuote_cons hq, close _ apart]

variable {tags : List RoleTag}

theorem rolesRead_of_quoted (quoted : ∀ tag ∈ tags, tag.quoting ≠ .bare) :
    rolesRead none tags = tags.map (·.role) := by
  induction tags with
  | nil => rfl
  | cons tag tags ih =>
    obtain ⟨first, later⟩ := List.forall_mem_cons.1 quoted
    rw [rolesRead, if_neg first, ih later, List.map_cons]

theorem bracket_of_running {v : List Char} (h : '>' ∈ v) :
    ∃ role ∈ rolesRead (some v) tags, '>' ∈ role := by
  induction tags generalizing v with
  | nil => exact ⟨v, .head _, h⟩
  | cons tag tags ih =>
    rw [rolesRead]
    split
    · exact ih (List.mem_append_left tag.text h)
    · exact ⟨_, .head _, List.mem_append_left opening h⟩

theorem bracket_of_bare (bare : ∃ tag ∈ tags, tag.quoting = .bare) :
    ∃ role ∈ rolesRead none tags, '>' ∈ role := by
  induction tags with
  | nil => simp at bare
  | cons tag tags ih =>
    rw [rolesRead]
    split
    · exact bracket_of_running (by simp)
    · rename_i quoted
      rw [List.exists_mem_cons_iff] at bare
      obtain first | later := bare
      · exact absurd first quoted
      · obtain ⟨role, seen, bracket⟩ := ih later
        exact ⟨role, .tail _ seen, bracket⟩

theorem roleValues_page_iff :
    roleValues (page tags) = tags.map (·.role) ↔ ∀ tag ∈ tags, tag.quoting ≠ .bare := by
  rw [(roleValues_page tags).1]
  refine ⟨fun same tag there bare => ?_, rolesRead_of_quoted⟩
  obtain ⟨role, seen, bracket⟩ := bracket_of_bare ⟨tag, there, bare⟩
  rw [same] at seen
  obtain ⟨other, -, rfl⟩ := List.mem_map.1 seen
  exact other.not_mem_role (by decide) bracket

section

variable (quoted : ∀ tag ∈ tags, tag.quoting ≠ .bare)

include quoted

theorem apart_page : Apart (page tags) := by
  rw [Apart, roleValues_page_iff.2 quoted]
  intro role seen ends
  obtain ⟨tag, -, rfl⟩ := List.mem_map.1 seen
  exact tag.not_mem_role (by decide) (ends.subset (by decide : '=' ∈ "role=".toList))

theorem quotedIn_page {role : List Char} (h : role ∈ roleValues (page tags)) :
    QuotedIn (page tags) role := by
  rw [roleValues_page_iff.2 quoted] at h
  obtain ⟨tag, there, rfl⟩ := List.mem_map.1 h
  obtain ⟨q, hq, text⟩ := tag.text_quoted (quoted tag there)
  obtain ⟨front, behind, rfl⟩ := List.append_of_mem there
  refine ⟨q, q, hq, hq, page front ++ "<div ".toList, '>' :: page behind, ?_⟩
  have split : opening = "<div ".toList ++ "role=".toList := rfl
  simp only [page, List.flatMap_append, List.flatMap_cons, text, split, quotedText_eq]
  simp

end

end Aria

namespace Rule

open Aria

theorem fails_of_bracket {t role : List Char} (seen : role ∈ roleValues t) (bracket : '>' ∈ role) :
    ¬ariaRoles.passes t ∧ ¬ariaLandmarks.passes t := by
  have unknown (allowed : List String) (names : ∀ name ∈ allowed, '>' ∉ name.toList) :
      ¬∀ role ∈ roleValues t, ∃ name ∈ allowed, name.toList = role := by
    intro accepted
    obtain ⟨name, listed, rfl⟩ := accepted role seen
    exact names name listed bracket
  rw [passes_ariaRoles_iff, passes_ariaLandmarks_iff]
  exact ⟨unknown validRoles (by decide), unknown landmarkRoles (by decide)⟩

theorem passes_of_same_roles {tags others : List RoleTag}
    (same : others.map (·.role) = tags.map (·.role)) (quoted : ∀ tag ∈ tags ++ others, tag.quoting ≠ .bare) :
    ∀ r ∈ [ariaRoles, ariaLandmarks, ariaRoleDuplication],
      r.passes (page others) = r.passes (page tags) := by
  obtain ⟨left, right⟩ := List.forall_mem_append.1 quoted
  have values : roleValues (page others) = roleValues (page tags) := by
    rw [roleValues_page_iff.2 left, roleValues_page_iff.2 right, same]
  have conflicts :
      ¬ariaRoleDuplication.passes (page others) ↔ ¬ariaRoleDuplication.passes (page tags) := by
    rw [fails_ariaRoleDuplication_iff_both (apart_page left) fun _ _ _ => quotedIn_page left,
      fails_ariaRoleDuplication_iff_both (apart_page right) fun _ _ _ => quotedIn_page right, values]
  simp only [List.forall_mem_cons]
  refine ⟨?_, ?_, Bool.eq_iff_iff.2 (not_iff_not.1 conflicts), List.forall_mem_nil _⟩
  · rw [Bool.eq_iff_iff, passes_ariaRoles_iff, passes_ariaRoles_iff, values]
  · rw [Bool.eq_iff_iff, passes_ariaLandmarks_iff, passes_ariaLandmarks_iff, values]

/-- The roles of a page are read as they are written if and only if each stands in quotes, and then the
kinds of the quotes decide nothing.  A role without quotes leaves one that is neither valid nor a landmark. -/
theorem roles_read_in_quotes (tags : List RoleTag) :
    roleValues (page tags) = rolesRead none tags ∧
    (roleValues (page tags) = tags.map (·.role) ↔ ∀ tag ∈ tags, tag.quoting ≠ .bare) ∧
    (∀ others : List RoleTag, others.map (·.role) = tags.map (·.role) →
      (∀ tag ∈ tags ++ others, tag.quoting ≠ .bare) →
      ∀ r ∈ [ariaRoles, ariaLandmarks, ariaRoleDuplication],
        r.passes (page others) = r.passes (page tags)) ∧
    ((∃ tag ∈ tags, tag.quoting = .bare) →
      ¬ariaRoles.passes (page tags) ∧ ¬ariaLandmarks.passes (page tags)) := by
  obtain ⟨read, -⟩ := roleValues_page tags
  refine ⟨read, roleValues_page_iff, fun _ => passes_of_same_roles, fun bare => ?_⟩
  obtain ⟨role, seen, bracket⟩ := bracket_of_bare bare
  exact fails_of_bracket (read ▸ seen) bracket

theorem button_in_all_quotings :
    let double : RoleTag := ⟨"button".toList, .double, by decide⟩
    let single : RoleTag := ⟨"button".toList, .single, by decide⟩
    let bare : RoleTag := ⟨"button".toList, .bare, by decide⟩
    ariaRoles.passes (page [double, single]) = ariaRoles.passes (page [single, double]) ∧
      ¬ariaRoles.passes (page [double, bare]) ∧
      roleValues (page [bare, single, double]) = ["button><div role=".toList, "button".toList] := by
  intro double single bare
  have swapped := (roles_read_in_quotes [single, double]).2.2.1 [double, single] rfl
    (by decide) ariaRoles (.head _)
  have unread := ((roles_read_in_quotes [double, bare]).2.2.2 ⟨bare, .tail _ (.head _), rfl⟩).1
  exact ⟨swapped, unread, (roles_read_in_quotes [bare, single, double]).1⟩

theorem bare_button_invalid :
    let bare : RoleTag := ⟨"button".toList, .bare, by decide⟩
    let double : RoleTag := ⟨"button".toList, .double, by decide⟩
    page [bare] = "<div role=button>".toList ∧ roleValues (page [bare]) ≠ ["button".toList] ∧
      ariaRoles.passes (page [double]) ∧ ¬ariaRoles.passes (page [bare]) := by
  decide +kernel

end Rule
end WcagAudit
