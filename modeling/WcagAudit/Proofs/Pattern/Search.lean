import Mathlib.Data.List.Forall2
import WcagAudit.Proofs.Pattern.Reading

namespace WcagAudit.Pattern

variable {p q : Pattern}

theorem run_append {α : Type _} (p q : Pattern) (t : Trail) (k : Trail → Option α) :
    (p ++ q).run t k = p.run t fun u => q.run u k := by
  change (p.append q).run t k = _
  induction p generalizing t with
  | nothing => rfl
  | seq a b _ ih => simp only [append, run, ih]
  | _ => rfl

theorem reads_append {t u : Trail} : (p ++ q).Reads t u ↔ ∃ v, p.Reads t v ∧ q.Reads v u := by
  change (p.append q).Reads t u ↔ _
  induction p generalizing t with
  | nothing => simp [append, Reads]
  | seq a b _ ih =>
    simp only [append, Reads, ih]
    constructor
    · rintro ⟨v, ha, w, hb, hq⟩
      exact ⟨w, ⟨v, ha, hb⟩, hq⟩
    · rintro ⟨w, ⟨v, ha, hb⟩, hq⟩
      exact ⟨v, ha, w, hb, hq⟩
  | _ => rfl

theorem exists_reads_append_idle (idle : ∀ t, q.Reads t t) {t : Trail} :
    (∃ u, (p ++ q).Reads t u) ↔ ∃ u, p.Reads t u := by
  simp only [reads_append]
  constructor
  · rintro ⟨_, u, hu, -⟩
    exact ⟨u, hu⟩
  · rintro ⟨u, hu⟩
    exact ⟨u, u, hu, idle u⟩

theorem optional_idle (t : Trail) : (optional p).Reads t t := .inr rfl

theorem many_idle {accepts : Char → Bool} (t : Trail) : (many accepts).Reads t t :=
  ⟨[], t.rest, rfl, rfl, rfl⟩

theorem reads_word (accepts : Char → Char → Bool) {s : List Char} {t u : Trail} :
    (s.foldr (fun c p => one (accepts c) ++ p) nothing).Reads t u ↔
      ∃ w rest, t.rest = w ++ rest ∧ List.Forall₂ (accepts · ·) s w ∧ u = t.past w rest := by
  induction s generalizing t with
  | nil =>
    constructor
    · rintro rfl
      exact ⟨[], _, rfl, .nil, rfl⟩
    · rintro ⟨w, rest, h, hw, rfl⟩
      cases hw
      exact Trail.past_nil h
  | cons c s ih =>
    rw [List.foldr_cons, reads_append]
    constructor
    · rintro ⟨_, ⟨d, cs, h, hd, rfl⟩, hs⟩
      obtain ⟨w, rest, rfl, hw, rfl⟩ := ih.1 hs
      exact ⟨d :: w, rest, h, .cons hd hw, Trail.advance_past ..⟩
    · rintro ⟨w, rest, h, hw, rfl⟩
      cases hw with
      | cons hd hw =>
        rename_i d w
        refine ⟨_, ⟨d, w ++ rest, h, hd, rfl⟩, ih.2 ⟨w, rest, rfl, hw, ?_⟩⟩
        exact (Trail.advance_past ..).symm

theorem reads_exactly {s : String} {t u : Trail} :
    (exactly s).Reads t u ↔ ∃ rest, t.rest = s.toList ++ rest ∧ u = t.past s.toList rest := by
  apply (reads_word fun c d => d == c).trans
  have spells (w : List Char) :
      List.Forall₂ (fun c d => (d == c) = true) s.toList w ↔ s.toList = w := by
    simp only [beq_iff_eq, eq_comm (b := (_ : Char)), List.forall₂_eq_eq_eq]
  constructor
  · rintro ⟨w, rest, h, hw, rfl⟩
    cases (spells w).1 hw
    exact ⟨rest, h, rfl⟩
  · rintro ⟨rest, h, rfl⟩
    exact ⟨_, rest, h, (spells _).2 rfl, rfl⟩

theorem run_exactly {α : Type _} {s : String} {t : Trail} {rest : List Char}
    (h : t.rest = s.toList ++ rest) (k : Trail → Option α) :
    (exactly s).run t k = k (t.past s.toList rest) := by
  apply run_of_unique
  intro u
  rw [reads_exactly]
  constructor
  · rintro ⟨rest', h', rfl⟩
    rw [List.append_cancel_left (h'.symm.trans h)]
  · rintro rfl
    exact ⟨rest, h, rfl⟩

theorem reads_ignoringCase {s : String} {t u : Trail} :
    (ignoringCase s).Reads t u ↔ ∃ w rest, t.rest = w ++ rest ∧
      w.map foldLetter = s.toList.map foldLetter ∧ u = t.past w rest := by
  apply (reads_word sameLetter).trans
  have spells (w : List Char) :
      List.Forall₂ (sameLetter · ·) s.toList w ↔ w.map foldLetter = s.toList.map foldLetter := by
    rw [eq_comm, ← List.forall₂_eq_eq_eq, List.forall₂_map_left_iff, List.forall₂_map_right_iff]
    simp only [sameLetter, beq_iff_eq]
  simp only [spells]

theorem run_ignoringCase {α : Type _} {s : String} {t : Trail} {w rest : List Char} (h : t.rest = w ++ rest)
    (hw : w.map foldLetter = s.toList.map foldLetter) (k : Trail → Option α) :
    (ignoringCase s).run t k = k (t.past w rest) := by
  apply run_of_unique
  intro u
  rw [reads_ignoringCase]
  constructor
  · rintro ⟨w', rest', h', hw', rfl⟩
    have same : w'.length = w.length := by
      simpa using congrArg List.length (hw'.trans hw.symm)
    obtain ⟨rfl, rfl⟩ := List.append_inj (h'.symm.trans h) same
    rfl
  · rintro rfl
    exact ⟨w, rest, h, hw, rfl⟩

theorem reads_firstOf {ps : List Pattern} {t u : Trail} :
    (firstOf ps).Reads t u ↔ ∃ p ∈ ps, p.Reads t u := by
  induction ps with
  | nil => simp [firstOf, Reads]
  | cons p ps ih =>
    rw [List.exists_mem_cons_iff]
    cases ps with
    | nil => simp [firstOf]
    | cons q qs => exact or_congr_right ih

theorem exists_reads_firstOf {ps : List Pattern} {t : Trail} :
    (∃ u, (firstOf ps).Reads t u) ↔ ∃ p ∈ ps, ∃ u, p.Reads t u := by
  simp only [reads_firstOf]
  constructor
  · rintro ⟨u, p, hp, hu⟩
    exact ⟨p, hp, u, hu⟩
  · rintro ⟨p, hp, u, hu⟩
    exact ⟨u, p, hp, hu⟩

theorem exists_reads_anyName_append {names : List String} {t : Trail} :
    (∃ u, (anyName names ++ q).Reads t u) ↔
      ∃ name ∈ names, ∃ u, (ignoringCase name ++ q).Reads t u := by
  simp only [reads_append, anyName, reads_firstOf, List.mem_map, exists_exists_and_eq_and]
  constructor
  · rintro ⟨u, v, ⟨name, listed, hv⟩, hu⟩
    exact ⟨name, listed, u, v, hv, hu⟩
  · rintro ⟨name, listed, u, v, hv, hu⟩
    exact ⟨u, v, ⟨name, listed, hv⟩, hu⟩

theorem Reads.past {t u : Trail} (h : p.Reads t u) :
    ∃ w, t.rest = w ++ u.rest ∧ u = { t.past w u.rest with parts := u.parts } := by
  induction p generalizing t u with
  | nothing => cases h; exact ⟨[], rfl, rfl⟩
  | one accepts =>
    obtain ⟨c, cs, hrest, -, rfl⟩ := h
    exact ⟨[c], hrest, rfl⟩
  | seq p q ihp ihq =>
    obtain ⟨v, hv, hu⟩ := h
    obtain ⟨w, hw, ev⟩ := ihp hv
    obtain ⟨x, hx, eu⟩ := ihq hu
    refine ⟨w ++ x, by rw [hw, hx, List.append_assoc], ?_⟩
    rw [← Trail.past_past t w x v.rest]
    rw [ev] at eu
    exact eu
  | either p q ihp ihq => exact h.elim ihp ihq
  | optional p ih =>
    rcases h with h | rfl
    · exact ih h
    · exact ⟨[], rfl, rfl⟩
  | many accepts =>
    obtain ⟨w, rest, hrest, -, rfl⟩ := h
    exact ⟨w, hrest, rfl⟩
  | few accepts =>
    obtain ⟨w, rest, hrest, -, rfl⟩ := h
    exact ⟨w, hrest, rfl⟩
  | boundary => obtain ⟨-, rfl⟩ := h; exact ⟨[], rfl, rfl⟩
  | finish => obtain ⟨-, rfl⟩ := h; exact ⟨[], rfl, rfl⟩
  | part p ih =>
    obtain ⟨v, hv, rfl⟩ := h
    obtain ⟨w, hw, ev⟩ := ih hv
    refine ⟨w, hw, ?_⟩
    rw [ev]
    rfl

theorem reads_of_matchAt? {before : Char} {cs : List Char} {m : Match}
    (h : p.matchAt? before cs = some m) :
    ∃ u, p.Reads ⟨0, before, cs, []⟩ u ∧ cs = m.text ++ u.rest ∧ m.parts = u.parts.map Span.text := by
  obtain ⟨u, hu, hm⟩ := reads_of_run h
  obtain ⟨w, hw, ev⟩ := hu.past
  have pos : u.pos = w.length := by rw [ev]; simp
  simp only [Option.some.injEq] at hm
  subst hm
  refine ⟨u, hu, ?_, rfl⟩
  simp only at hw ⊢
  rw [hw, pos, List.take_left]

theorem isSome_matchAt?_iff {before : Char} {cs : List Char} :
    (p.matchAt? before cs).isSome ↔ ∃ u, p.Reads ⟨0, before, cs, []⟩ u := by
  constructor
  · intro h
    obtain ⟨m, hm⟩ := Option.isSome_iff_exists.1 h
    obtain ⟨u, hu, -⟩ := reads_of_matchAt? hm
    exact ⟨u, hu⟩
  · rintro ⟨u, hu⟩
    exact isSome_run hu rfl

theorem occursIn_iff {t : List Char} :
    p.occursIn t ↔ ∃ u v w, t = u ++ v ∧ p.Reads ⟨0, u.getLastD ' ', v, []⟩ w := by
  unfold occursIn
  generalize ' ' = before
  induction t generalizing before with
  | nil =>
    rw [occursFrom, isSome_matchAt?_iff]
    constructor
    · rintro ⟨w, hw⟩
      exact ⟨[], [], w, rfl, hw⟩
    · rintro ⟨u, v, w, h, hw⟩
      obtain ⟨rfl, rfl⟩ := List.append_eq_nil_iff.1 h.symm
      exact ⟨w, hw⟩
  | cons c t ih =>
    rw [occursFrom, Bool.or_eq_true, isSome_matchAt?_iff, ih]
    constructor
    · rintro (⟨w, hw⟩ | ⟨u, v, w, rfl, hw⟩)
      · exact ⟨[], c :: t, w, rfl, hw⟩
      · exact ⟨c :: u, v, w, rfl, by rwa [List.getLastD_cons]⟩
    · rintro ⟨u, v, w, h, hw⟩
      cases u with
      | nil =>
        cases h
        exact .inl ⟨w, hw⟩
      | cons d u =>
        obtain ⟨rfl, rfl⟩ := List.cons_eq_cons.1 h
        rw [List.getLastD_cons] at hw
        exact .inr ⟨u, v, w, rfl, hw⟩

theorem occursIn_append_idle (idle : ∀ t, q.Reads t t) {t : List Char} :
    (p ++ q).occursIn t ↔ p.occursIn t := by
  simp only [occursIn_iff, exists_and_left, exists_reads_append_idle idle]

theorem occursIn_exactly {s : String} {t : List Char} : (exactly s).occursIn t ↔ s.toList <:+: t := by
  simp only [occursIn_iff, reads_exactly]
  constructor
  · rintro ⟨u, _, _, rfl, rest, rfl, -⟩
    exact ⟨u, rest, List.append_assoc ..⟩
  · rintro ⟨u, rest, rfl⟩
    exact ⟨u, s.toList ++ rest, _, List.append_assoc .., rest, rfl, rfl⟩

theorem occursIn_anyName {names : List String} {t : List Char} : (anyName names).occursIn t ↔
    ∃ name ∈ names, ∃ w, w <:+: t ∧ w.map foldLetter = name.toList.map foldLetter := by
  simp only [occursIn_iff, anyName, reads_firstOf, List.mem_map, exists_exists_and_eq_and,
    reads_ignoringCase]
  constructor
  · rintro ⟨u, _, _, rfl, name, listed, w, rest, rfl, same, -⟩
    exact ⟨name, listed, w, ⟨u, rest, List.append_assoc ..⟩, same⟩
  · rintro ⟨name, listed, w, ⟨u, rest, rfl⟩, same⟩
    exact ⟨u, w ++ rest, _, List.append_assoc .., name, listed, w, rest, rfl, same, rfl⟩

/-- The matches in a text: characters are passed as long as nothing but the empty text matches. -/
inductive Found (p : Pattern) : Char → List Char → List Match → Prop
  | done {before} : Found p before [] []
  | pass {before c cs ms} (h : ∀ m, p.matchAt? before (c :: cs) = some m → m.text = []) :
    Found p c cs ms → Found p before (c :: cs) ms
  | take {before c w cs m ms} (h : p.matchAt? before (c :: w ++ cs) = some m)
    (text : m.text = c :: w) : Found p (w.getLastD c) cs ms → Found p before (c :: w ++ cs) (m :: ms)

theorem matchesFrom_skip (w cs : List Char) (before : Char) :
    p.matchesFrom w.length before (w ++ cs) = p.matchesFrom 0 (w.getLastD before) cs := by
  induction w generalizing before with
  | nil => rfl
  | cons c w ih => rw [List.getLastD_cons]; exact ih c

theorem matchesFrom_match {before : Char} {x cs : List Char} {m : Match}
    (h : p.matchAt? before (x ++ cs) = some m) (text : m.text = x) (filled : x ≠ []) :
    p.matchesFrom 0 before (x ++ cs) = m :: p.matchesFrom 0 (x.getLastD before) cs := by
  cases x with
  | nil => exact absurd rfl filled
  | cons c x =>
    rw [List.cons_append] at h ⊢
    simp only [matchesFrom, h, text, matchesFrom_skip, List.getLastD_cons]

theorem eraseFrom_skip (w cs : List Char) (before : Char) :
    p.eraseFrom w.length before (w ++ cs) = p.eraseFrom 0 (w.getLastD before) cs := by
  induction w generalizing before with
  | nil => rfl
  | cons c w ih => rw [List.getLastD_cons]; exact ih c

theorem found_matchesFrom (before : Char) (cs : List Char) :
    p.Found before cs (p.matchesFrom 0 before cs) := by
  -- A match takes its text at once, so the induction is on the length of what is left.
  induction hn : cs.length using Nat.strongRecOn generalizing before cs with
  | ind n ih =>
    cases cs with
    | nil => exact .done
    | cons c cs =>
      have next : p.Found c cs (p.matchesFrom 0 c cs) :=
        ih cs.length (by rw [← hn]; exact Nat.lt_succ_self _) c cs rfl
      rw [matchesFrom]
      split
      · rename_i m hm
        split
        · rename_i htext
          refine .pass (fun m' hm' => ?_) next
          rw [hm] at hm'
          cases hm'
          exact htext
        · rename_i d w htext
          obtain ⟨u, -, hcs, -⟩ := reads_of_matchAt? hm
          rw [htext, List.cons_append, List.cons_eq_cons] at hcs
          obtain ⟨rfl, rfl⟩ := hcs
          rw [matchesFrom_skip]
          refine .take hm htext (ih _ ?_ _ _ rfl)
          rw [← hn]
          simp only [List.length_cons, List.length_append]
          omega
      · rename_i hm
        exact .pass (fun m hm' => by simp [hm] at hm') next

theorem Found.eq_matchesFrom {before : Char} {cs : List Char} {ms : List Match}
    (h : p.Found before cs ms) : ms = p.matchesFrom 0 before cs := by
  induction h with
  | done => rfl
  | @pass before c cs ms none _ ih =>
    rw [matchesFrom, ih]
    split
    · rename_i m hm
      rw [none m hm]
    · rfl
  | @take before c w cs m ms hm text _ ih =>
    rw [matchesFrom_match hm text (List.cons_ne_nil c w), List.getLastD_cons, ih]

theorem found_matchesIn (t : List Char) : p.Found ' ' t (p.matchesIn t) := found_matchesFrom ' ' t

theorem Found.sublist {before : Char} {cs : List Char} {ms : List Match} (h : p.Found before cs ms) :
    (ms.map Match.text).flatten.Sublist cs := by
  induction h with
  | done => exact .slnil
  | pass _ _ ih => exact ih.cons _
  | take _ text _ ih =>
    rw [List.map_cons, List.flatten_cons, text]
    exact List.Sublist.append (List.Sublist.refl _) ih

theorem Found.mem {before : Char} {cs : List Char} {ms : List Match} {m : Match}
    (h : p.Found before cs ms) (hm : m ∈ ms) :
    ∃ u v, cs = u ++ v ∧ p.matchAt? (u.getLastD before) v = some m := by
  induction h with
  | done => cases hm
  | @pass before c cs ms _ _ ih =>
    obtain ⟨u, v, rfl, hv⟩ := ih hm
    exact ⟨c :: u, v, rfl, by rwa [List.getLastD_cons]⟩
  | @take before c w cs m' ms h _ _ ih =>
    cases hm with
    | head => exact ⟨[], _, rfl, h⟩
    | tail _ hm =>
      obtain ⟨u, v, rfl, hv⟩ := ih hm
      refine ⟨c :: w ++ u, v, by simp, ?_⟩
      rwa [getLastD_append, List.getLastD_cons]

end WcagAudit.Pattern
