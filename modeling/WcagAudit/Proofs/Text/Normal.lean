import WcagAudit.Text.Blank

namespace WcagAudit

theorem isBlank_space : isBlank ' ' := by decide

theorem words_cons_blank {c : Char} (h : isBlank c) (t : List Char) : words (c :: t) = words t := by
  rw [words, piecesBy_cons_pos h]
  rfl

theorem normalize_cons_blank {c : Char} (h : isBlank c) (t : List Char) :
    normalize (c :: t) = normalize t := by
  rw [normalize, words_cons_blank h, ← normalize]

theorem words_letter_blank {c d : Char} (hc : ¬isBlank c) (hd : isBlank d) (t : List Char) :
    words (c :: d :: t) = [c] :: words t := by
  rw [words, piecesBy_cons_neg hc (piecesBy_cons_pos hd t)]
  rfl

theorem words_letter_letter {c d : Char} (hc : ¬isBlank c) (hd : ¬isBlank d) (t : List Char) :
    ∃ w ws, words (d :: t) = w :: ws ∧ words (c :: d :: t) = (c :: w) :: ws := by
  obtain ⟨piece, pieces, ht⟩ := List.exists_cons_of_ne_nil (piecesBy_ne_nil t : piecesBy isBlank t ≠ [])
  have next := piecesBy_cons_neg hd ht
  refine ⟨d :: piece, pieces.filter (!·.isEmpty), ?_, ?_⟩
  · rw [words, next]
    rfl
  · rw [words, piecesBy_cons_neg hc next]
    rfl

theorem normalize_eq_nil {t : List Char} : normalize t = [] ↔ words t = [] := by
  constructor
  · intro h
    cases hw : words t with
    | nil => rfl
    | cons w ws =>
      have member : w ∈ words t := hw ▸ List.mem_cons_self
      have filled : w ≠ [] := by simpa using (List.mem_filter.1 member).2
      rw [normalize, hw] at h
      cases ws <;> simp_all [List.intercalate_cons_cons]
  · intro h
    rw [normalize, h]
    rfl

def gapBefore (t : List Char) : List Char :=
  if t.head?.any isBlank && !(normalize t).isEmpty then [' '] else []

theorem eq_space_of_mem_gapBefore {c : Char} {t : List Char} (h : c ∈ gapBefore t) : c = ' ' := by
  unfold gapBefore at h
  split at h
  · exact List.mem_singleton.1 h
  · cases h

theorem gapBefore_of_empty {t : List Char} (h : normalize t = []) : gapBefore t = [] := by
  simp [gapBefore, h]

theorem normalize_cons_letter {c : Char} (hc : ¬isBlank c) (t : List Char) :
    normalize (c :: t) = c :: (gapBefore t ++ normalize t) := by
  cases t with
  | nil => simp [normalize, words, piecesBy, hc, gapBefore]
  | cons d t =>
    by_cases hd : isBlank d
    · rw [normalize, words_letter_blank hc hd, gapBefore, normalize_cons_blank hd]
      by_cases h : words t = []
      · simp [h, normalize_eq_nil.2 h]
      · have filled : normalize t ≠ [] := fun empty => h (normalize_eq_nil.1 empty)
        rw [List.intercalate_cons_of_ne_nil h, ← normalize]
        simp [hd, filled]
    · obtain ⟨w, ws, hw, joined⟩ := words_letter_letter hc hd t
      rw [normalize, joined, normalize, hw]
      cases ws <;> simp [gapBefore, hd, List.intercalate_cons_cons]

theorem mem_normalize {c : Char} (hc : ¬isBlank c) {t : List Char} : c ∈ normalize t ↔ c ∈ t := by
  induction t with
  | nil => rfl
  | cons d t ih =>
    by_cases hd : isBlank d
    · have other : c ≠ d := fun h => hc (h ▸ hd)
      simp [normalize_cons_blank hd, ih, other]
    · have outside : c ∉ gapBefore t := fun h => hc (eq_space_of_mem_gapBefore h ▸ isBlank_space)
      simp [normalize_cons_letter hd, ih, outside]

theorem normalize_append (s t : List Char) :
    ∃ gap : List Char, (∀ c ∈ gap, c = ' ') ∧ normalize (s ++ t) = normalize s ++ gap ++ normalize t := by
  induction s with
  | nil => exact ⟨[], nofun, rfl⟩
  | cons c s ih =>
    obtain ⟨gap, spaces, ih⟩ := ih
    rw [List.cons_append]
    by_cases hc : isBlank c
    · exact ⟨gap, spaces, by rw [normalize_cons_blank hc, normalize_cons_blank hc, ih]⟩
    rw [normalize_cons_letter hc, normalize_cons_letter hc]
    by_cases hs : normalize s = []
    · refine ⟨gapBefore (s ++ t) ++ gap, ?_, by simp [ih, hs, gapBefore_of_empty hs]⟩
      intro d hd
      exact (List.mem_append.1 hd).elim eq_space_of_mem_gapBefore (spaces d)
    · have same : gapBefore (s ++ t) = gapBefore s := by
        have filled : s ≠ [] := fun empty => hs (by rw [empty]; rfl)
        obtain ⟨d, rest, rfl⟩ := List.exists_cons_of_ne_nil filled
        rw [gapBefore, gapBefore, ih]
        simp [hs]
      exact ⟨gap, spaces, by simp [ih, same]⟩

end WcagAudit
