import WcagAudit.Proofs.Pattern.Quote
import WcagAudit.Proofs.Pattern.Sites
import WcagAudit.Proofs.Rule.Sightings

namespace WcagAudit

namespace Aria

open Pattern

def roleValue (rest : List Char) : List Char := (afterQuote rest).takeWhile (!isQuote ·)

def roleText (name rest : List Char) : List Char :=
  name ++ leadingQuote rest ++ roleValue rest ++
    leadingQuote ((afterQuote rest).dropWhile (!isQuote ·))

def SpellsRole (name : List Char) : Prop :=
  name.map foldLetter = "role=".toList.map foldLetter

theorem SpellsRole.folds {name : List Char} (h : SpellsRole name) :
    name.map foldLetter = ['r', 'o', 'l', 'e', '='] := h

theorem SpellsRole.unquoted {name : List Char} (h : SpellsRole name) :
    ∀ c ∈ name, !isQuote c :=
  unquoted_of_map_foldLetter h (by decide)

theorem SpellsRole.not_inside {name name' u z rest rest' : List Char} (h : SpellsRole name)
    (h' : SpellsRole name') (hu : u ≠ []) (hname' : name' = u ++ z) (hz : name ++ rest = z ++ rest') :
    z = [] := by
  cases z with
  | nil => rfl
  | cons d z =>
    obtain ⟨a, u, rfl⟩ := List.exists_cons_of_ne_nil hu
    have folds := h'.folds
    rw [hname', List.map_append, List.map_cons, List.map_cons, List.cons_append,
      List.cons_eq_cons] at folds
    have inside : foldLetter d ∈ ['o', 'l', 'e', '='] := by simp [← folds.2]
    have first : foldLetter d = 'r' := by
      cases name with
      | nil => exact absurd h.folds (by simp)
      | cons c name =>
        rw [List.cons_append, List.cons_append, List.cons_eq_cons] at hz
        have := h.folds
        rw [List.map_cons, List.cons_eq_cons] at this
        rw [← hz.1, this.1]
    rw [first] at inside
    exact absurd inside (by decide)

theorem roleText_append (name rest : List Char) :
    roleText name rest ++ afterQuote ((afterQuote rest).dropWhile (!isQuote ·)) = name ++ rest := by
  simp only [roleText, roleValue, List.append_assoc, leadingQuote_append_afterQuote,
    List.takeWhile_append_dropWhile]

theorem run_roleAttribute {α : Type _} {name rest : List Char} {before : Char}
    {k : Trail → Option α} {r : α} (h : SpellsRole name)
    (hk : k { Trail.past ⟨0, before, name ++ rest, []⟩ (roleText name rest)
        (afterQuote ((afterQuote rest).dropWhile (!isQuote ·))) with
      parts := [⟨afterQuote rest, (roleValue rest).length⟩] } = some r) :
    roleAttribute.run ⟨0, before, name ++ rest, []⟩ k = some r := by
  unfold roleAttribute
  rw [run_append, run_append, run_append, run_ignoringCase rfl h]
  apply run_optional_quote_of_some
  apply run_many_of_some
  apply run_optional_quote_of_some
  rw [← hk]
  congr 1
  simp only [roleText, roleValue, Trail.past, Trail.capture, getLastD_append, List.length_append,
    Nat.zero_add, Nat.add_sub_cancel_left, List.nil_append]

theorem matchAt?_roleAttribute {name : List Char} (before : Char) (rest : List Char)
    (h : SpellsRole name) :
    roleAttribute.matchAt? before (name ++ rest) =
      some ⟨roleText name rest, [roleValue rest]⟩ := by
  have value : (afterQuote rest).take (roleValue rest).length = roleValue rest :=
    (List.prefix_iff_eq_take.1 (List.takeWhile_prefix _)).symm
  apply run_roleAttribute h
  simp only [Trail.pos_past, Nat.zero_add, List.map_cons, List.map_nil, Span.text, value]
  rw [← roleText_append, List.take_left]

theorem spellsRole_of_matchAt? {before : Char} {cs : List Char} {m : Match}
    (h : roleAttribute.matchAt? before cs = some m) :
    ∃ name rest, cs = name ++ rest ∧ SpellsRole name ∧ m = ⟨roleText name rest, [roleValue rest]⟩ := by
  obtain ⟨u, hu, -, -⟩ := reads_of_matchAt? h
  simp only [roleAttribute, reads_append, reads_ignoringCase] at hu
  obtain ⟨_, ⟨_, ⟨_, ⟨name, rest, hcs, hname, rfl⟩, -⟩, -⟩, -⟩ := hu
  subst hcs
  rw [matchAt?_roleAttribute before rest hname] at h
  exact ⟨name, rest, rfl, hname, (Option.some.inj h).symm⟩

def quotedText (q : Char) (x : List Char) (q' : Char) : List Char := "role=".toList ++ q :: x ++ [q']

theorem quotedText_eq (q : Char) (x : List Char) (q' : Char) :
    quotedText q x q' = "role=".toList ++ q :: x ++ [q'] := rfl

theorem quotedText_append (q : Char) (x : List Char) (q' : Char) (v : List Char) :
    quotedText q x q' ++ v = "role=".toList ++ (q :: x ++ q' :: v) := by simp [quotedText_eq]

theorem matchAt?_quotedRole {q q' : Char} {x : List Char} (hq : isQuote q) (hq' : isQuote q')
    (hx : x.all (!isQuote ·)) (before : Char) (v : List Char) :
    quotedRole.matchAt? before (quotedText q x q' ++ v) = some ⟨quotedText q x q', [x]⟩ := by
  unfold matchAt? quotedRole
  rw [quotedText_append, run_append, run_append, run_append, run_exactly rfl]
  simp only [quote, run, List.cons_append, Trail.rest_past, hq, if_true, unquoted]
  apply run_many_of_some
  simp only [Trail.rest_advance, Trail.rest_past, Trail.rest_capture, takeWhile_unquoted hx hq',
    dropWhile_unquoted hx hq', hq', if_true,
    Trail.pos_advance, Trail.pos_past, Trail.pos_capture, Trail.parts_advance, Trail.parts_past,
    Trail.parts_capture, Nat.zero_add, Nat.add_sub_cancel_left, List.nil_append, List.map_cons,
    List.map_nil, Span.text, List.take_left]
  have length : "role=".toList.length + 1 + x.length + 1 = (quotedText q x q').length := by
    simp [quotedText_eq]
    omega
  rw [length, ← List.cons_append, ← quotedText_append, List.take_left]

theorem quotedRole_of_matchAt? {before : Char} {cs : List Char} {m : Match}
    (h : quotedRole.matchAt? before cs = some m) : ∃ q x q' v, cs = quotedText q x q' ++ v ∧
      isQuote q ∧ isQuote q' ∧ x.all (!isQuote ·) ∧ m = ⟨quotedText q x q', [x]⟩ := by
  obtain ⟨e, he, -, -⟩ := reads_of_matchAt? h
  simp only [quotedRole, reads_append, reads_exactly, quote, unquoted, Reads] at he
  obtain ⟨_, ⟨_, ⟨_, ⟨rest, hv, rfl⟩, q, cs, hcs, hq, rfl⟩, _, ⟨w, rest', hw, hall, rfl⟩, rfl⟩,
    q', cs', hcs', hq', rfl⟩ := he
  simp only [Trail.rest_past, Trail.rest_advance, Trail.rest_capture] at hcs hw hcs'
  subst hv hcs hw hcs'
  have split : "role=".toList ++ q :: (w ++ q' :: cs') = quotedText q w q' ++ cs' := by simp [quotedText_eq]
  rw [split] at h ⊢
  rw [matchAt?_quotedRole hq hq' hall] at h
  exact ⟨q, w, q', cs', rfl, hq, hq', hall, (Option.some.inj h).symm⟩

theorem exists_of_mem_quotedRole {t x : List Char}
    (h : x ∈ (quotedRole.matchesIn t).map (·.part 0)) :
    ∃ u v q q', t = u ++ "role=".toList ++ q :: x ++ q' :: v ∧ isQuote q ∧ isQuote q' ∧
      x.all (!isQuote ·) := by
  obtain ⟨m, hm, rfl⟩ := List.mem_map.1 h
  obtain ⟨u, _, rfl, hat⟩ := (found_matchesIn t).mem hm
  obtain ⟨q, x, q', v, rfl, hq, hq', hx, rfl⟩ := quotedRole_of_matchAt? hat
  exact ⟨u, v, q, q', by simp [quotedText_eq, Match.part], hq, hq', hx⟩

theorem SpellsRole.behind_quote {name rest t u : List Char} (h : SpellsRole name)
    (text : t = u ++ (name ++ rest)) :
    ∃ v, u = leadingQuote t ++ v ∧ afterQuote t = v ++ (name ++ rest) := by
  have split := leadingQuote_append_afterQuote t
  rcases List.append_eq_append_iff.1 (split.trans text) with ⟨z, hu, hz⟩ | ⟨z, hq, hz⟩
  · exact ⟨z, hu, hz⟩
  · cases z with
    | nil => exact ⟨[], by simpa using hq.symm, by simpa using hz.symm⟩
    | cons q z =>
      have quoted : isQuote q := isQuote_of_mem_leadingQuote (t := t) (by simp [hq])
      cases name with
      | nil => exact absurd h.folds (by simp)
      | cons c name =>
        rw [List.cons_append, List.cons_append, List.cons_eq_cons] at hz
        have := h.unquoted c (.head _)
        simp [hz.1, quoted] at this

theorem name_in_value {u name rest name' rest' : List Char} (h : SpellsRole name)
    (h' : SpellsRole name') (text : u ++ (name ++ rest) = name' ++ rest') (hu : u ≠ [])
    (hlt : u.length < (roleText name' rest').length) :
    ∃ x, u = name' ++ leadingQuote rest' ++ x ∧
      roleValue rest' = x ++ name ++ rest.takeWhile (!isQuote ·) := by
  obtain ⟨v, rfl, hrest'⟩ : ∃ v, u = name' ++ v ∧ rest' = v ++ (name ++ rest) := by
    rcases List.append_eq_append_iff.1 text with ⟨z, hname', hz⟩ | h₃
    · cases h.not_inside h' hu hname' hz
      exact ⟨[], by simpa using hname'.symm, by simpa using hz.symm⟩
    · exact h₃
  obtain ⟨x, rfl, hafter⟩ := h.behind_quote hrest'
  -- The earlier match is long enough to reach the name, so no quote in front of it ends the value.
  have short : x.length ≤ (roleValue rest').length := by
    have closing := length_leadingQuote_le ((afterQuote rest').dropWhile (!isQuote ·))
    simp only [roleText, List.length_append] at hlt
    omega
  refine ⟨x, (List.append_assoc ..).symm, ?_⟩
  rw [roleValue, hafter, List.takeWhile_append] at short ⊢
  split at short
  · rename_i all
    rw [if_pos all, List.takeWhile_append_of_pos h.unquoted, List.append_assoc]
  · rename_i some
    have := (List.takeWhile_prefix (l := x) (!isQuote ·)).length_le
    omega

theorem swallowed_of_overlap {before : Char} {u name rest : List Char} {m : Match}
    (h : SpellsRole name) (hat : roleAttribute.matchAt? before (u ++ (name ++ rest)) = some m)
    (hu : u ≠ []) (hlt : u.length < m.text.length) :
    ∃ x, m.part 0 = x ++ name ++ rest.takeWhile (!isQuote ·) := by
  obtain ⟨name', rest', text, h', rfl⟩ := spellsRole_of_matchAt? hat
  obtain ⟨x, -, value⟩ := name_in_value h h' text hu hlt
  exact ⟨x, value⟩

/-- A role attribute is a match of its own, or its name lies inside the value of an earlier match. -/
theorem roleAttribute_seen (u rest : List Char) {name : List Char} (h : SpellsRole name) :
    (∃ m ∈ roleAttribute.matchesIn (u ++ (name ++ rest)), m.part 0 = roleValue rest) ∨
    ∃ m ∈ roleAttribute.matchesIn (u ++ (name ++ rest)), ∃ x,
      m.part 0 = x ++ name ++ rest.takeWhile (!isQuote ·) := by
  have text : roleText name rest ≠ [] := by
    intro hnil
    have : name = [] := by simp_all [roleText]
    exact absurd h.folds (by simp [this])
  rcases matchesIn_covers (u := u) (matchAt?_roleAttribute _ rest h) text with
    hm | ⟨m, hm, u₁, u₂, -, hu₂, hat, hlt⟩
  · exact .inl ⟨_, hm, rfl⟩
  · exact .inr ⟨m, hm, swallowed_of_overlap h hat hu₂ hlt⟩

section

variable {x v : List Char} {q q' : Char} (hq : isQuote q) (hq' : isQuote q') (hx : x.all (!isQuote ·))

include hq hq' hx

theorem roleValue_quoted : roleValue (q :: x ++ q' :: v) = x := by
  rw [roleValue, List.cons_append, afterQuote_cons hq, takeWhile_unquoted hx hq']

theorem behind_quoted : (afterQuote (q :: x ++ q' :: v)).dropWhile (!isQuote ·) = q' :: v := by
  rw [List.cons_append, afterQuote_cons hq, dropWhile_unquoted hx hq']

theorem roleText_quoted (name : List Char) :
    roleText name (q :: x ++ q' :: v) = name ++ q :: x ++ [q'] := by
  rw [roleText, roleValue_quoted hq hq' hx, behind_quoted hq hq' hx]
  simp [leadingQuote, hq, hq']

theorem value_of_spelled {u name : List Char} (h : SpellsRole name) :
    ∃ m ∈ roleAttribute.matchesIn (u ++ (name ++ (q :: x ++ q' :: v))),
      m.part 0 = x ∨ name <:+ m.part 0 := by
  rcases roleAttribute_seen u (q :: x ++ q' :: v) h with ⟨m, hm, hvalue⟩ | ⟨m, hm, y, hvalue⟩
  · exact ⟨m, hm, .inl (hvalue.trans (roleValue_quoted hq hq' hx))⟩
  · refine ⟨m, hm, .inr ⟨y, ?_⟩⟩
    have closed : (q :: x ++ q' :: v).takeWhile (!isQuote ·) = [] := by simp [hq]
    rw [hvalue, closed, List.append_nil]

end

/-- Whatever stands in quotes behind the name of the attribute is a role, unless a role ends with that
equals sign. -/
theorem roleValues_of_spelled {u letters x v : List Char} {q q' : Char}
    (h : SpellsRole (letters ++ ['='])) (hq : isQuote q) (hq' : isQuote q') (hx : x.all (!isQuote ·)) :
    ∃ role ∈ roleValues (u ++ (letters ++ ['='] ++ (q :: x ++ q' :: v))),
      role = trim x ∨ ∃ y, role = y ++ ['='] := by
  obtain ⟨m, hm, value⟩ := value_of_spelled hq hq' hx (u := u) (v := v) h
  refine ⟨trim (m.part 0), List.mem_map_of_mem hm, value.imp (congrArg trim) ?_⟩
  rintro ⟨y, hy⟩
  exact ⟨trimStart (y ++ letters), by rw [← hy, ← List.append_assoc, trim_concat (by decide)]⟩

theorem trim_append_name (y : List Char) :
    trim (y ++ "role=".toList) = trimStart y ++ "role=".toList := by
  have split : y ++ "role=".toList = (y ++ 'r' :: ['o', 'l', 'e']) ++ ['='] := by simp
  rw [split, trim_concat (by decide), trimStart_append (by decide)]
  simp

theorem roleValues_of_quoted {t x : List Char}
    (h : x ∈ (quotedRole.matchesIn t).map (·.part 0)) :
    ∃ role ∈ roleValues t, role = trim x ∨ "role=".toList <:+ role := by
  obtain ⟨u, v, q, q', rfl, hq, hq', hx⟩ := exists_of_mem_quotedRole h
  have spelled : SpellsRole "role=".toList := rfl
  obtain ⟨m, hm, value⟩ := value_of_spelled hq hq' hx (u := u) (v := v) spelled
  refine ⟨trim (m.part 0), List.mem_map_of_mem (by simpa using hm), value.imp (congrArg trim) ?_⟩
  rintro ⟨y, hy⟩
  exact ⟨trimStart y, by rw [← hy, trim_append_name]⟩

end Aria

namespace Rule

open Aria

theorem passes_ariaRoles_iff {t : List Char} :
    ariaRoles.passes t ↔ ∀ role ∈ roleValues t, ∃ name ∈ validRoles, name.toList = role := by
  simp [passes_eq, sightings, met, Sighting.allAccepted]

theorem passes_ariaLandmarks_iff {t : List Char} :
    ariaLandmarks.passes t ↔ ∀ role ∈ roleValues t, ∃ name ∈ landmarkRoles, name.toList = role := by
  simp [passes_eq, sightings, met, Sighting.allAccepted]

theorem passes_ariaRoleDuplication_iff {t : List Char} :
    ariaRoleDuplication.passes t ↔ ∀ pair ∈ conflictingRoles, pair.1.toList ∈ roleValues t →
      pair.2.toList ∉ (quotedRole.matchesIn t).map (·.part 0) := by
  simp only [passes_eq, sightings, met, Sighting.allAccepted, List.all_flatMap,
    List.all_eq_true, List.all_map, Function.comp_apply, Bool.not_eq_true', Bool.and_eq_false_imp,
    List.contains_eq_mem, decide_eq_false_iff_not, beq_iff_eq]
  constructor
  · intro h pair hpair hrole
    exact h _ hrole pair hpair rfl
  · rintro h role hrole pair hpair rfl
    exact h pair hpair hrole

theorem trim_conflicting : ∀ pair ∈ conflictingRoles, trim pair.2.toList = pair.2.toList := by decide

theorem valid_is_neither : ∀ name ∈ validRoles,
    (∀ pair ∈ conflictingRoles, name.toList ≠ pair.2.toList) ∧ ¬"role=".toList <:+ name.toList := by
  decide

theorem invalid_of_quoted {t : List Char} {pair : String × String} (listed : pair ∈ conflictingRoles)
    (h : pair.2.toList ∈ (quotedRole.matchesIn t).map (·.part 0)) :
    ∃ role ∈ roleValues t, (∀ name ∈ validRoles, name.toList ≠ role) ∧
      (role = pair.2.toList ∨ "role=".toList <:+ role) := by
  obtain ⟨role, seen, shape⟩ := roleValues_of_quoted h
  rw [trim_conflicting pair listed] at shape
  refine ⟨role, seen, fun name valid same => ?_, shape⟩
  obtain ⟨apart, whole⟩ := valid_is_neither name valid
  rcases shape with second | swallowed
  · exact apart pair listed (same.trans second)
  · exact whole (same ▸ swallowed)

/-- A document whose roles are all valid has none in conflict. -/
theorem passes_ariaRoleDuplication {t : List Char} (h : ariaRoles.passes t) :
    ariaRoleDuplication.passes t := by
  refine passes_ariaRoleDuplication_iff.2 fun pair listed _ quoted => ?_
  obtain ⟨role, seen, invalid, -⟩ := invalid_of_quoted listed quoted
  obtain ⟨name, valid, same⟩ := passes_ariaRoles_iff.1 h role seen
  exact invalid name valid same

end Rule
end WcagAudit
