import WcagAudit.Proofs.Text.Normal

namespace WcagAudit

/-- The only blanks of the text are spaces, each alone between two characters that are none. -/
inductive Spaced : List Char → Prop
  | nil : Spaced []
  | letter {c : Char} {t : List Char} : ¬isBlank c → Spaced t → Spaced (c :: t)
  | space {c : Char} {t : List Char} : ¬isBlank c → Spaced t → t ≠ [] → Spaced (c :: ' ' :: t)

theorem Spaced.head {c : Char} {t : List Char} (h : Spaced (c :: t)) : ¬isBlank c := by
  cases h <;> assumption

theorem gapBefore_of_letter {c : Char} (hc : ¬isBlank c) (t : List Char) : gapBefore (c :: t) = [] := by
  simp [gapBefore, hc]

theorem gapBefore_of_blank {c : Char} (hc : isBlank c) {t : List Char} (h : normalize t ≠ []) :
    gapBefore (c :: t) = [' '] := by
  simp [gapBefore, hc, normalize_cons_blank hc, h]

theorem spaced_normalize (t : List Char) : Spaced (normalize t) := by
  induction t with
  | nil => exact .nil
  | cons c t ih =>
    by_cases hc : isBlank c
    · rw [normalize_cons_blank hc]
      exact ih
    · rw [normalize_cons_letter hc, gapBefore]
      split
      · rename_i h
        exact .space hc ih (by simp_all)
      · exact .letter hc ih

theorem normalize_of_spaced {t : List Char} (h : Spaced t) : normalize t = t := by
  induction h with
  | nil => rfl
  | @letter c t hc ht ih =>
    have gap : gapBefore t = [] := by
      cases t with
      | nil => rfl
      | cons d t => exact gapBefore_of_letter ht.head t
    rw [normalize_cons_letter hc, gap, ih, List.nil_append]
  | @space c t hc _ filled ih =>
    rw [normalize_cons_letter hc, gapBefore_of_blank isBlank_space (by rwa [ih]),
      normalize_cons_blank isBlank_space, ih, List.singleton_append]

theorem normalize_normalize (t : List Char) : normalize (normalize t) = normalize t :=
  normalize_of_spaced (spaced_normalize t)

theorem length_gapBefore_le (t : List Char) :
    (gapBefore t).length + (normalize t).length ≤ t.length := by
  induction t with
  | nil => exact Nat.le_refl 0
  | cons c t ih =>
    by_cases hc : isBlank c
    · have single : (gapBefore (c :: t)).length ≤ 1 := by
        unfold gapBefore
        split <;> simp
      rw [normalize_cons_blank hc, List.length_cons]
      omega
    · rw [gapBefore_of_letter hc, normalize_cons_letter hc, List.length_cons, List.length_append,
        List.length_nil, List.length_cons]
      omega

theorem length_normalize_le (t : List Char) : (normalize t).length ≤ t.length :=
  Nat.le_trans (Nat.le_add_left _ _) (length_gapBefore_le t)

def Word (w : List Char) : Prop := ∀ c ∈ w, ¬isBlank c

instance (w : List Char) : Decidable (Word w) :=
  decidable_of_iff (w.all fun c => !isBlank c) (by simp [Word])

section

variable {w : List Char} (hw : Word w)

include hw

theorem Word.eq_nil_of_prefix {c : Char} (hc : isBlank c) {t : List Char} (opens : w <+: c :: t) :
    w = [] := by
  cases w with
  | nil => rfl
  | cons d w =>
    obtain ⟨rfl, -⟩ := List.cons_prefix_cons.1 opens
    exact absurd hc (hw d List.mem_cons_self)

theorem Word.infix_blank_cons {c : Char} (hc : isBlank c) {t : List Char} :
    w <:+: c :: t ↔ w <:+: t := by
  rw [List.infix_cons_iff]
  refine ⟨?_, .inr⟩
  rintro (opens | later)
  · rw [hw.eq_nil_of_prefix hc opens]
    exact List.nil_infix
  · exact later

theorem normalize_append_word (filled : w ≠ []) (t : List Char) :
    normalize (w ++ t) = w ++ (gapBefore t ++ normalize t) := by
  induction w with
  | nil => exact absurd rfl filled
  | cons c w ih =>
    obtain ⟨first, later⟩ := List.forall_mem_cons.1 hw
    rw [List.cons_append, normalize_cons_letter first]
    cases w with
    | nil => rfl
    | cons d w =>
      rw [ih later (List.cons_ne_nil d w), List.cons_append,
        gapBefore_of_letter (later d List.mem_cons_self)]
      rfl

theorem prefix_of_prefix_normalize {t : List Char} (opens : w <+: gapBefore t ++ normalize t) :
    w <+: t := by
  induction w generalizing t with
  | nil => exact List.nil_prefix
  | cons d w ih =>
    cases t with
    | nil => exact opens
    | cons c t =>
      by_cases hc : isBlank c
      · rw [gapBefore, normalize_cons_blank hc] at opens
        split at opens
        · exact absurd (hw.eq_nil_of_prefix isBlank_space opens) (List.cons_ne_nil d w)
        · simp_all
      · rw [gapBefore_of_letter hc, normalize_cons_letter hc, List.nil_append,
          List.cons_prefix_cons] at opens
        exact List.cons_prefix_cons.2 ⟨opens.1, ih (List.forall_mem_cons.1 hw).2 opens.2⟩

theorem infix_gap {t n : List Char} : w <:+: gapBefore t ++ n ↔ w <:+: n := by
  unfold gapBefore
  split
  · exact hw.infix_blank_cons isBlank_space
  · rfl

theorem infix_normalize {t : List Char} : w <:+: normalize t ↔ w <:+: t := by
  induction t with
  | nil => rfl
  | cons c t ih =>
    by_cases hc : isBlank c
    · rw [normalize_cons_blank hc, hw.infix_blank_cons hc, ih]
    · rw [normalize_cons_letter hc, List.infix_cons_iff, List.infix_cons_iff, infix_gap hw, ih]
      refine or_congr_left ⟨fun opens => ?_, ?_⟩
      · apply prefix_of_prefix_normalize hw
        rwa [gapBefore_of_letter hc, normalize_cons_letter hc]
      · rintro ⟨x, hx⟩
        cases w with
        | nil => exact List.nil_prefix
        | cons d w =>
          rw [← normalize_cons_letter hc, ← hx, normalize_append_word hw (List.cons_ne_nil d w)]
          exact List.prefix_append _ _

end

end WcagAudit
