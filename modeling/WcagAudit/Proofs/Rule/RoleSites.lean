import WcagAudit.Proofs.Rule.Roles

namespace WcagAudit.Aria

open Pattern

def RoleAt (t : List Char) (i : Nat) : Prop :=
  ∃ u name rest, t = u ++ (name ++ rest) ∧ u.length = i ∧ SpellsRole name

/-- The characters up to the next quote, behind `role=` at `i` and the quote that may follow it. -/
def valueExtent (t : List Char) (i : Nat) : Extent :=
  let start := i + 5 + (leadingQuote (t.drop (i + 5))).length
  ⟨start, ((t.drop start).takeWhile (!isQuote ·)).length⟩

def roleSite (u name rest : List Char) : Site where
  whole := ⟨u.length, (roleText name rest).length⟩
  parts := [⟨u.length + 5 + (leadingQuote rest).length, (roleValue rest).length⟩]

variable {u name rest : List Char}

theorem SpellsRole.length (h : SpellsRole name) : name.length = 5 := by
  simpa using congrArg List.length h

theorem drop_name (h : SpellsRole name) : (u ++ (name ++ rest)).drop (u.length + 5) = rest := by
  rw [← h.length, ← List.append_assoc, ← List.length_append, List.drop_left]

theorem valueExtent_eq (h : SpellsRole name) : valueExtent (u ++ (name ++ rest)) u.length =
    ⟨u.length + 5 + (leadingQuote rest).length, (roleValue rest).length⟩ := by
  have behind : (u ++ (name ++ rest)).drop (u.length + 5 + (leadingQuote rest).length) =
      afterQuote rest := by
    rw [← List.drop_drop, drop_name h, afterQuote]
  simp only [valueExtent, drop_name h, behind, roleValue]

theorem siteAt?_roleAttribute (before : Char) (h : SpellsRole name) :
    roleAttribute.siteAt? u.length before (name ++ rest) = some (roleSite u name rest) := by
  have split : rest.length = (leadingQuote rest).length + (afterQuote rest).length := by
    rw [← List.length_append, leadingQuote_append_afterQuote]
  have behind : u.length + ((name ++ rest).length - (afterQuote rest).length) =
      u.length + 5 + (leadingQuote rest).length := by
    rw [List.length_append, h.length, split]
    omega
  apply run_roleAttribute h
  simp only [Trail.site, Trail.pos_past, Nat.zero_add, List.map_cons, List.map_nil, behind, roleSite]

theorem exists_of_mem_roleSites {t : List Char} {s : Site} (h : s ∈ roleAttribute.sitesIn t) :
    ∃ u name rest, t = u ++ (name ++ rest) ∧ SpellsRole name ∧ s = roleSite u name rest := by
  obtain ⟨u, v, rfl, hs⟩ := exists_of_mem_sitesIn h
  have found := found_siteAt? (p := roleAttribute) (t := u ++ v) (u.getLastD ' ') List.drop_left
  rw [hs] at found
  obtain ⟨name, rest, rfl, spelled, -⟩ := spellsRole_of_matchAt? found.symm
  rw [siteAt?_roleAttribute _ spelled, Option.some.injEq] at hs
  exact ⟨u, name, rest, rfl, spelled, hs.symm⟩

theorem filled_roleSite (h : SpellsRole name) : (roleSite u name rest).whole.length ≠ 0 := by
  simp only [roleSite, roleText, List.length_append, h.length]
  omega

theorem value_within (h : SpellsRole name) : ∀ value ∈ (roleSite u name rest).parts,
    (roleSite u name rest).whole.start + 5 ≤ value.start ∧
      value.stop ≤ (roleSite u name rest).whole.stop := by
  simp only [roleSite, List.mem_singleton, forall_eq, Extent.stop, roleText, List.length_append,
    h.length]
  omega

theorem inside_value {u name rest u' name' rest' : List Char} (h : SpellsRole name)
    (h' : SpellsRole name') (text : u ++ (name ++ rest) = u' ++ (name' ++ rest'))
    (later : u'.length < u.length)
    (reaches : u.length < (roleSite u' name' rest').whole.stop) :
    ∃ value ∈ (roleSite u' name' rest').parts,
      value.start ≤ u.length ∧ u.length + 5 ≤ value.stop := by
  obtain ⟨w, rfl, filled, between⟩ := exists_between text later
  have short : w.length < (roleText name' rest').length := by
    simpa [roleSite, Extent.stop] using reaches
  obtain ⟨x, rfl, value⟩ := name_in_value h h' between.symm filled short
  refine ⟨_, .head _, ?_⟩
  simp only [Extent.stop, value, List.length_append, h.length, h'.length]
  omega

def ReadAt (t : List Char) (i : Nat) : Prop :=
  ∃ s ∈ roleAttribute.sitesIn t, s.whole.start = i ∧ s.parts = [valueExtent t i]

/-- The five characters at `i` lie inside the value of just one match in front of them. -/
def SwallowedAt (t : List Char) (i : Nat) : Prop :=
  ∃! s, s ∈ roleAttribute.sitesIn t ∧ s.whole.start < i ∧
    ∃ value ∈ s.parts, value.start ≤ i ∧ i + 5 ≤ value.stop

theorem roleValues_eq_sites (t : List Char) : roleValues t =
    ((roleAttribute.sitesIn t).flatMap Site.parts).map fun value => trim (value.text t) := by
  rw [roleValues, ← found_sitesIn, List.map_map, List.map_flatMap, List.map_eq_flatMap]
  refine List.flatMap_congr fun s h => ?_
  obtain ⟨u, name, rest, -, -, rfl⟩ := exists_of_mem_roleSites h
  rfl

theorem pairwise_values (t : List Char) :
    ((roleAttribute.sitesIn t).flatMap Site.parts).Pairwise fun v v' => v.stop < v'.start := by
  refine List.pairwise_flatMap.2 ⟨fun s h => ?_, ?_⟩
  · obtain ⟨u, name, rest, -, -, rfl⟩ := exists_of_mem_roleSites h
    exact List.pairwise_singleton ..
  · refine (pairwise_sitesIn roleAttribute t).imp_of_mem fun h h' order v hv v' hv' => ?_
    obtain ⟨u, name, rest, -, spelled, rfl⟩ := exists_of_mem_roleSites h
    obtain ⟨u', name', rest', -, spelled', rfl⟩ := exists_of_mem_roleSites h'
    have first := value_within spelled v hv
    have second := value_within spelled' v' hv'
    omega

theorem eq_of_inside {t : List Char} {s s' : Site} {i : Nat} (h : s ∈ roleAttribute.sitesIn t)
    (h' : s' ∈ roleAttribute.sitesIn t)
    (inside : ∃ value ∈ s.parts, value.start ≤ i ∧ i + 5 ≤ value.stop)
    (inside' : s'.whole.start ≤ i ∧ i < s'.whole.stop) : s = s' := by
  by_contra other
  obtain ⟨value, hv, low, upto⟩ := inside
  have apart := apart_of_mem_sitesIn h h' other
  obtain ⟨u, name, rest, -, spelled, rfl⟩ := exists_of_mem_roleSites h
  have bounds := value_within spelled value hv
  omega

theorem readAt_or_swallowedAt {t : List Char} {i : Nat} (h : RoleAt t i) :
    ReadAt t i ∨ SwallowedAt t i := by
  obtain ⟨u, name, rest, rfl, rfl, spelled⟩ := h
  rcases sitesIn_covers (siteAt?_roleAttribute (u.getLastD ' ') spelled) (filled_roleSite spelled) with
    read | ⟨s, hs, before, reaches⟩
  · refine .inl ⟨_, read, rfl, ?_⟩
    rw [valueExtent_eq spelled, roleSite]
  · have inside : ∃ value ∈ s.parts, value.start ≤ u.length ∧ u.length + 5 ≤ value.stop := by
      obtain ⟨u', name', rest', text, spelled', rfl⟩ := exists_of_mem_roleSites hs
      exact inside_value spelled spelled' text before reaches
    refine .inr ⟨s, ⟨hs, before, inside⟩, ?_⟩
    rintro s' ⟨hs', -, inside'⟩
    exact eq_of_inside hs' hs inside' ⟨Nat.le_of_lt before, reaches⟩

theorem not_readAt_and_swallowedAt {t : List Char} {i : Nat} : ¬(ReadAt t i ∧ SwallowedAt t i) := by
  rintro ⟨⟨s, hs, rfl, -⟩, s', ⟨hs', before, inside⟩, -⟩
  obtain ⟨u, name, rest, -, spelled, rfl⟩ := exists_of_mem_roleSites hs
  have own : (roleSite u name rest).whole.start < (roleSite u name rest).whole.stop :=
    Nat.lt_add_of_pos_right (Nat.pos_of_ne_zero (filled_roleSite spelled))
  rw [eq_of_inside hs' hs inside ⟨Nat.le_refl _, own⟩] at before
  exact Nat.lt_irrefl _ before

/-- No role attribute is lost.  The roles of a document are the values at the sites of their search, one
behind the other, and each `role=` in the text either is the start of one of these matches, with all up
to the next quote for its value, or lies inside the value of just one earlier match. -/
theorem no_role_lost (t : List Char) :
    (roleAttribute.sitesIn t).map (·.found t) = roleAttribute.matchesIn t ∧
    (roleAttribute.sitesIn t).Pairwise (fun s s' => s.whole.stop ≤ s'.whole.start) ∧
    roleValues t =
      ((roleAttribute.sitesIn t).flatMap Site.parts).map (fun value => trim (value.text t)) ∧
    ((roleAttribute.sitesIn t).flatMap Site.parts).Pairwise (fun v v' => v.stop < v'.start) ∧
    ∀ i, RoleAt t i → (ReadAt t i ∨ SwallowedAt t i) ∧ ¬(ReadAt t i ∧ SwallowedAt t i) :=
  ⟨found_sitesIn roleAttribute t, pairwise_sitesIn roleAttribute t, roleValues_eq_sites t,
    pairwise_values t, fun _ h => ⟨readAt_or_swallowedAt h, not_readAt_and_swallowedAt⟩⟩

set_option maxRecDepth 10000 in
theorem button_read_link_swallowed :
    let page := "<i role='button'><p ROLE=x role='link'>".toList
    RoleAt page 20 ∧ ReadAt page 20 ∧ RoleAt page 27 ∧ SwallowedAt page 27 := by
  intro page
  have sites : roleAttribute.sitesIn page = [⟨⟨3, 13⟩, [⟨9, 6⟩]⟩, ⟨⟨20, 13⟩, [⟨25, 7⟩]⟩] := by decide
  have first : RoleAt page 20 :=
    ⟨"<i role='button'><p ".toList, "ROLE=".toList, "x role='link'>".toList, by decide, rfl, rfl⟩
  have second : RoleAt page 27 :=
    ⟨"<i role='button'><p ROLE=x ".toList, "role=".toList, "'link'>".toList, by decide, rfl, rfl⟩
  have read : ReadAt page 20 := by
    rw [ReadAt, sites]
    decide
  have notRead : ¬ReadAt page 27 := by
    rw [ReadAt, sites]
    decide
  obtain ⟨-, -, -, -, kept⟩ := no_role_lost page
  exact ⟨first, read, second, (kept 27 second).1.resolve_left notRead⟩

end WcagAudit.Aria
