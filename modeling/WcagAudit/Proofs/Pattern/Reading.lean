import WcagAudit.Pattern.Search

namespace WcagAudit

theorem getLastD_append (v w : List Char) (before : Char) :
    (v ++ w).getLastD before = w.getLastD (v.getLastD before) := by
  induction v generalizing before with
  | nil => rfl
  | cons c v ih => rw [List.cons_append, List.getLastD_cons, ih, List.getLastD_cons]

def Trail.past (t : Trail) (w rest : List Char) : Trail :=
  { t with pos := t.pos + w.length, before := w.getLastD t.before, rest }

theorem Trail.past_nil {t : Trail} {cs : List Char} (h : t.rest = cs) : t.past [] cs = t := by
  subst h
  rfl

section

variable (t s : Trail) (c : Char) (w rest : List Char)

@[simp] theorem Trail.rest_past : (t.past w rest).rest = rest := rfl

@[simp] theorem Trail.pos_past : (t.past w rest).pos = t.pos + w.length := rfl

@[simp] theorem Trail.parts_past : (t.past w rest).parts = t.parts := rfl

@[simp] theorem Trail.rest_advance : (t.advance c rest).rest = rest := rfl

@[simp] theorem Trail.pos_advance : (t.advance c rest).pos = t.pos + 1 := rfl

@[simp] theorem Trail.parts_advance : (t.advance c rest).parts = t.parts := rfl

@[simp] theorem Trail.rest_capture : (t.capture s).rest = t.rest := rfl

@[simp] theorem Trail.pos_capture : (t.capture s).pos = t.pos := rfl

@[simp] theorem Trail.parts_capture :
    (t.capture s).parts = t.parts ++ [⟨s.rest, t.pos - s.pos⟩] := rfl

end

theorem Trail.past_past (t : Trail) (v w r rest : List Char) :
    (t.past v r).past w rest = t.past (v ++ w) rest := by
  simp only [past, getLastD_append, List.length_append, Nat.add_assoc]

theorem Trail.advance_past (t : Trail) (c : Char) (cs w rest : List Char) :
    (t.advance c cs).past w rest = t.past (c :: w) rest := Trail.past_past t [c] w cs rest

namespace Pattern

def Reads : Pattern → Trail → Trail → Prop
  | nothing, t, u => u = t
  | one accepts, t, u => ∃ c cs, t.rest = c :: cs ∧ accepts c ∧ u = t.advance c cs
  | seq p q, t, u => ∃ v, p.Reads t v ∧ q.Reads v u
  | either p q, t, u => p.Reads t u ∨ q.Reads t u
  | optional p, t, u => p.Reads t u ∨ u = t
  | many accepts, t, u | few accepts, t, u =>
    ∃ w rest, t.rest = w ++ rest ∧ w.all accepts ∧ u = t.past w rest
  | boundary, t, u => isBoundary t.before (t.rest.headD ' ') ∧ u = t
  | finish, t, u => t.rest = [] ∧ u = t
  | part p, t, u => ∃ v, p.Reads t v ∧ u = v.capture t

variable {α : Type _}

theorem longest_sound {accepts : Char → Bool} {k : Trail → Option α} {r : α} {t : Trail}
    {cs : List Char} (h : t.rest = cs) (hr : t.longest accepts k cs = some r) :
    ∃ w rest, cs = w ++ rest ∧ w.all accepts ∧ k (t.past w rest) = some r := by
  induction cs generalizing t with
  | nil => exact ⟨[], [], rfl, rfl, by rwa [Trail.past_nil h]⟩
  | cons c cs ih =>
    simp only [Trail.longest] at hr
    split at hr
    · split at hr
      · rename_i later
        cases hr
        obtain ⟨w, rest, rfl, hw, hk⟩ := ih (t := t.advance c cs) rfl later
        exact ⟨c :: w, rest, rfl, by simp_all, by rwa [← Trail.advance_past]⟩
      · exact ⟨[], c :: cs, rfl, rfl, by rwa [Trail.past_nil h]⟩
    · exact ⟨[], c :: cs, rfl, rfl, by rwa [Trail.past_nil h]⟩

theorem longest_complete {accepts : Char → Bool} {k : Trail → Option α} {t : Trail}
    {w rest : List Char} (h : t.rest = w ++ rest) (hw : w.all accepts)
    (hk : (k (t.past w rest)).isSome) : (t.longest accepts k (w ++ rest)).isSome := by
  induction w generalizing t with
  | nil =>
    rw [List.nil_append] at h
    rw [Trail.past_nil h] at hk
    cases rest with
    | nil => exact hk
    | cons c cs =>
      simp only [List.nil_append, Trail.longest]
      split
      · split
        · rfl
        · exact hk
      · exact hk
  | cons c w ih =>
    simp only [List.all_cons, Bool.and_eq_true] at hw
    have later := ih (t := t.advance c (w ++ rest)) rfl hw.2 (by rwa [Trail.advance_past])
    simp only [List.cons_append, Trail.longest, hw.1, if_true]
    split
    · rfl
    · simp_all

theorem shortest_sound {accepts : Char → Bool} {k : Trail → Option α} {r : α} {t : Trail}
    {cs : List Char} (h : t.rest = cs) (hr : t.shortest accepts k cs = some r) :
    ∃ w rest, cs = w ++ rest ∧ w.all accepts ∧ k (t.past w rest) = some r := by
  induction cs generalizing t with
  | nil => exact ⟨[], [], rfl, rfl, by rwa [Trail.past_nil h]⟩
  | cons c cs ih =>
    simp only [Trail.shortest] at hr
    split at hr
    · cases hr
      exact ⟨[], c :: cs, rfl, rfl, by rwa [Trail.past_nil h]⟩
    · split at hr
      · obtain ⟨w, rest, rfl, hw, hk⟩ := ih (t := t.advance c cs) rfl hr
        exact ⟨c :: w, rest, rfl, by simp_all, by rwa [← Trail.advance_past]⟩
      · cases hr

theorem shortest_complete {accepts : Char → Bool} {k : Trail → Option α} {t : Trail}
    {w rest : List Char} (h : t.rest = w ++ rest) (hw : w.all accepts)
    (hk : (k (t.past w rest)).isSome) : (t.shortest accepts k (w ++ rest)).isSome := by
  induction w generalizing t with
  | nil =>
    rw [List.nil_append] at h
    rw [Trail.past_nil h] at hk
    cases rest with
    | nil => exact hk
    | cons c cs =>
      simp only [List.nil_append, Trail.shortest]
      split
      · rfl
      · simp_all
  | cons c w ih =>
    simp only [List.all_cons, Bool.and_eq_true] at hw
    have later := ih (t := t.advance c (w ++ rest)) rfl hw.2 (by rwa [Trail.advance_past])
    simp only [List.cons_append, Trail.shortest, hw.1, if_true]
    split
    · rfl
    · exact later

/-- A run that succeeds has found a way that its continuation takes. -/
theorem reads_of_run {p : Pattern} {t : Trail} {k : Trail → Option α} {r : α}
    (h : p.run t k = some r) : ∃ u, p.Reads t u ∧ k u = some r := by
  induction p generalizing t k with
  | nothing => exact ⟨t, rfl, h⟩
  | one accepts =>
    simp only [run] at h
    split at h
    · rename_i c cs hrest
      split at h
      · exact ⟨_, ⟨c, cs, hrest, by assumption, rfl⟩, h⟩
      · cases h
    · cases h
  | seq p q ihp ihq =>
    obtain ⟨v, hv, h⟩ := ihp h
    obtain ⟨u, hu, h⟩ := ihq h
    exact ⟨u, ⟨v, hv, hu⟩, h⟩
  | either p q ihp ihq =>
    simp only [run] at h
    split at h
    · rename_i hp
      cases h
      obtain ⟨u, hu, h⟩ := ihp hp
      exact ⟨u, .inl hu, h⟩
    · obtain ⟨u, hu, h⟩ := ihq h
      exact ⟨u, .inr hu, h⟩
  | optional p ih =>
    simp only [run] at h
    split at h
    · rename_i hp
      cases h
      obtain ⟨u, hu, h⟩ := ih hp
      exact ⟨u, .inl hu, h⟩
    · exact ⟨t, .inr rfl, h⟩
  | many accepts =>
    obtain ⟨w, rest, hw, ha, h⟩ := longest_sound rfl h
    exact ⟨_, ⟨w, rest, hw, ha, rfl⟩, h⟩
  | few accepts =>
    obtain ⟨w, rest, hw, ha, h⟩ := shortest_sound rfl h
    exact ⟨_, ⟨w, rest, hw, ha, rfl⟩, h⟩
  | boundary =>
    simp only [run] at h
    split at h
    · exact ⟨t, ⟨by assumption, rfl⟩, h⟩
    · cases h
  | finish =>
    simp only [run] at h
    split at h
    · exact ⟨t, ⟨List.isEmpty_iff.1 (by assumption), rfl⟩, h⟩
    · cases h
  | part p ih =>
    obtain ⟨v, hv, h⟩ := ih h
    exact ⟨_, ⟨v, hv, rfl⟩, h⟩

theorem isSome_run {p : Pattern} {t u : Trail} {k : Trail → Option α}
    (h : p.Reads t u) (hk : (k u).isSome) : (p.run t k).isSome := by
  induction p generalizing t u k with
  | nothing => cases h; exact hk
  | one accepts =>
    obtain ⟨c, cs, hrest, hc, rfl⟩ := h
    simpa [run, hrest, hc] using hk
  | seq p q ihp ihq =>
    obtain ⟨v, hv, hu⟩ := h
    exact ihp hv (ihq hu hk)
  | either p q ihp ihq =>
    simp only [run]
    split
    · rfl
    · rename_i hp
      rcases h with h | h
      · simpa [hp] using ihp h hk
      · exact ihq h hk
  | optional p ih =>
    simp only [run]
    split
    · rfl
    · rename_i hp
      rcases h with h | rfl
      · simpa [hp] using ih h hk
      · exact hk
  | many accepts =>
    obtain ⟨w, rest, hrest, hw, rfl⟩ := h
    simpa only [run, hrest] using longest_complete hrest hw hk
  | few accepts =>
    obtain ⟨w, rest, hrest, hw, rfl⟩ := h
    simpa only [run, hrest] using shortest_complete hrest hw hk
  | boundary => obtain ⟨h, rfl⟩ := h; simpa only [run, if_pos h] using hk
  | finish => obtain ⟨h, rfl⟩ := h; simpa [run, h] using hk
  | part p ih =>
    obtain ⟨v, hv, rfl⟩ := h
    exact ih hv hk

theorem run_of_unique {p : Pattern} {t v : Trail} (h : ∀ u, p.Reads t u ↔ u = v)
    (k : Trail → Option α) : p.run t k = k v := by
  cases hk : k v with
  | some r =>
    have found := isSome_run (k := k) ((h v).2 rfl) (by simp [hk])
    obtain ⟨r', hr'⟩ := Option.isSome_iff_exists.1 found
    obtain ⟨u, hu, hku⟩ := reads_of_run hr'
    rw [hr', ← hku, (h u).1 hu, hk]
  | none =>
    cases hr : p.run t k with
    | none => rfl
    | some r =>
      obtain ⟨u, hu, hku⟩ := reads_of_run hr
      rw [(h u).1 hu, hk] at hku
      cases hku

theorem run_either_of_some {p q : Pattern} {t : Trail} {k : Trail → Option α} {r : α}
    (h : p.run t k = some r) : (either p q).run t k = some r := by
  simp only [run, h]

theorem run_eq_none {p : Pattern} {t : Trail} (h : ∀ u, ¬p.Reads t u) (k : Trail → Option α) :
    p.run t k = none :=
  Option.eq_none_iff_forall_ne_some.2 fun _ found => (reads_of_run found).elim fun u hu => h u hu.1

theorem run_either_of_not_reads {p q : Pattern} {t : Trail} (h : ∀ u, ¬p.Reads t u)
    (k : Trail → Option α) : (either p q).run t k = q.run t k := by
  simp only [run, run_eq_none h]

theorem run_many_of_some {accepts : Char → Bool} {t : Trail} {k : Trail → Option α} {r : α}
    (h : k (t.past (t.rest.takeWhile accepts) (t.rest.dropWhile accepts)) = some r) :
    (many accepts).run t k = some r := by
  -- The continuation takes the longest run, so no shorter one is offered to it.
  have greedy : ∀ (cs : List Char) (t : Trail), t.rest = cs →
      k (t.past (cs.takeWhile accepts) (cs.dropWhile accepts)) = some r →
      t.longest accepts k cs = some r := by
    intro cs
    induction cs with
    | nil =>
      intro t ht hk
      rwa [List.takeWhile_nil, List.dropWhile_nil, Trail.past_nil ht] at hk
    | cons c cs ih =>
      intro t ht hk
      simp only [Trail.longest]
      by_cases hc : accepts c
      · rw [if_pos hc, ih (t.advance c cs) rfl]
        rw [Trail.advance_past]
        simpa [hc] using hk
      · rw [if_neg hc]
        rwa [List.takeWhile_cons_of_neg hc, List.dropWhile_cons_of_neg hc, Trail.past_nil ht] at hk
  exact greedy t.rest t rfl h

/-- A short repetition goes on as long as its continuation refuses. -/
theorem run_few_of_some {accepts : Char → Bool} {t : Trail} {k : Trail → Option α} {r : α}
    {w rest : List Char} (h : t.rest = w ++ rest) (hw : w.all accepts)
    (refused : ∀ v c x, w = v ++ c :: x → k (t.past v (c :: x ++ rest)) = none)
    (hk : k (t.past w rest) = some r) : (few accepts).run t k = some r := by
  simp only [run, h]
  induction w generalizing t with
  | nil =>
    rw [Trail.past_nil (show t.rest = rest from h)] at hk
    cases rest <;> simp only [List.nil_append, Trail.shortest, hk]
  | cons c w ih =>
    rw [List.all_cons, Bool.and_eq_true] at hw
    have here := refused [] c w rfl
    rw [Trail.past_nil h] at here
    rw [List.cons_append, Trail.shortest, here, if_pos hw.1]
    refine ih (t := t.advance c (w ++ rest)) rfl hw.2 (fun v d x split => ?_) ?_
    · rw [Trail.advance_past]
      exact refused (c :: v) d x (congrArg (c :: ·) split)
    · rwa [Trail.advance_past]

end Pattern
end WcagAudit
