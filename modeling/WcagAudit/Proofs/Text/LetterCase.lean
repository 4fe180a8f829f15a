import WcagAudit.Proofs.Text.Digits
import WcagAudit.Text.LetterCase
import WcagAudit.Text.WordChar

namespace WcagAudit

theorem isLower_toLower {c : Char} (h : 'A'.val ≤ c.val ∧ c.val ≤ 'Z'.val) : c.toLower.isLower := by
  have moved : c.toLower.val = c.val + ('a'.val - 'A'.val) := congrArg Char.val (dif_pos h)
  have small : 'a'.val ≤ c.toLower.val ∧ c.toLower.val ≤ 'z'.val := by
    simp only [Char.reduceVal, UInt32.reduceSub, UInt32.le_iff_toNat_le, UInt32.reduceToNat] at h moved
    simp only [moved, Char.reduceVal, UInt32.le_iff_toNat_le, UInt32.toNat_add, UInt32.reduceToNat]
    omega
  exact (Bool.and_eq_true ..).mpr ⟨decide_eq_true small.1, decide_eq_true small.2⟩

theorem toLower_eq_iff {c d : Char} (h : ¬d.isAlpha) : c.toLower = d ↔ c = d := by
  by_cases hc : 'A'.val ≤ c.val ∧ c.val ≤ 'Z'.val
  · have capital : c.isAlpha := (Bool.or_eq_true ..).mpr (.inl (decide_eq_true hc))
    have small : c.toLower.isAlpha := (Bool.or_eq_true ..).mpr (.inr (isLower_toLower hc))
    constructor
    · rintro rfl
      exact absurd small h
    · rintro rfl
      exact absurd capital h
  · have same : c.toLower = c := dif_neg hc
    rw [same]

theorem foldLetter_eq_ite (c : Char) : foldLetter c =
    if c.toLower = '\u017f' then 's' else if c.toLower = '\u212a' then 'k' else c.toLower := by
  rw [foldLetter]
  simp only [toLower_eq_iff (d := '\u017f') (by decide), toLower_eq_iff (d := '\u212a') (by decide)]

theorem foldLetter_of_isLower {c : Char} (h : c.isLower) : foldLetter c = c := by
  obtain ⟨low, -⟩ := (Bool.and_eq_true ..).mp h
  have small : ¬('A'.val ≤ c.val ∧ c.val ≤ 'Z'.val) := fun capital =>
    absurd (UInt32.le_trans (of_decide_eq_true low) capital.2) (by decide)
  have same : c.toLower = c := dif_neg small
  rw [foldLetter_eq_ite, same, if_neg, if_neg] <;> rintro rfl <;> cases h

theorem foldLetter_eq_toLower {c : Char} (h : foldLetter c ∉ ['s', 'k']) :
    foldLetter c = c.toLower := by
  rw [foldLetter_eq_ite] at h ⊢
  split at h
  · exact absurd (by decide) h
  · split at h
    · exact absurd (by decide) h
    · simp_all

theorem foldLetter_eq_iff {c d : Char} (h : foldLetter d ∉ ['s', 'k']) :
    foldLetter c = foldLetter d ↔ c.toLower = d.toLower := by
  constructor
  · intro same
    rw [← foldLetter_eq_toLower h, ← foldLetter_eq_toLower (same ▸ h), same]
  · intro same
    rw [foldLetter_eq_ite, same, ← foldLetter_eq_ite]

theorem foldLetter_eq_iff_of_not_alpha {c d : Char} (h : ¬d.isAlpha) (plain : foldLetter d = d) :
    foldLetter c = d ↔ c = d := by
  constructor
  · intro folds
    have other : foldLetter c ∉ ['s', 'k'] := by
      rw [folds]
      rintro (_ | ⟨_, _ | ⟨_, ⟨⟩⟩⟩) <;> exact h rfl
    rwa [foldLetter_eq_toLower other, toLower_eq_iff h] at folds
  · rintro rfl
    exact plain

theorem isAlpha_iff {c : Char} : c.isAlpha ↔
    65 ≤ c.toNat ∧ c.toNat ≤ 90 ∨ 97 ≤ c.toNat ∧ c.toNat ≤ 122 := by
  change decide ('A'.val ≤ c.val ∧ c.val ≤ 'Z'.val) || ('a'.val ≤ c.val && c.val ≤ 'z'.val) ↔ _
  simp [UInt32.le_iff_toNat_le]

theorem not_isBlank_of_isAlpha {c : Char} (h : c.isAlpha) : ¬isBlank c := by
  rw [isAlpha_iff] at h
  simp [isBlank, blankRanges]
  omega

theorem foldLetter_of_isBlank {c : Char} (h : isBlank c) : foldLetter c = c := by
  have letter : ¬c.isAlpha := fun alpha => not_isBlank_of_isAlpha alpha h
  rw [foldLetter_eq_ite, (toLower_eq_iff letter).2 rfl, if_neg, if_neg]
  · rintro rfl
    exact absurd h (by decide)
  · rintro rfl
    exact absurd h (by decide)

theorem isWordChar_of_isAlpha {c : Char} (h : c.isAlpha) : isWordChar c := by
  have ascii : c.toNat < 128 := by
    rw [isAlpha_iff] at h
    omega
  simp [isWordChar, ascii, Char.isAlphanum, h]

theorem isWordChar_of_isAlphanum {c : Char} (h : c.isAlphanum) : isWordChar c := by
  rcases (Bool.or_eq_true ..).mp h with alpha | digit
  · exact isWordChar_of_isAlpha alpha
  · have ascii : c.toNat < 128 := by
      have range := isDigit_iff.1 digit
      omega
    simp [isWordChar, ascii, h]

/-- What folds to a letter is a word character, the long s and the kelvin sign included. -/
theorem isWordChar_of_foldLetter {c : Char} (h : (foldLetter c).isAlpha) : isWordChar c := by
  unfold foldLetter at h
  split at h
  · subst c
    decide +kernel
  · split at h
    · subst c
      decide +kernel
    · by_cases letter : c.isAlpha
      · exact isWordChar_of_isAlpha letter
      · rw [(toLower_eq_iff letter).2 rfl] at h
        exact absurd h letter

theorem map_foldLetter_eq_iff {w name : List Char} (h : name.all (foldLetter · ∉ ['s', 'k'])) :
    w.map foldLetter = name.map foldLetter ↔ sameAscii w name := by
  rw [sameAscii, beq_iff_eq]
  induction w generalizing name with
  | nil => simp only [List.map_nil, eq_comm (a := []), List.map_eq_nil_iff]
  | cons c w ih =>
    cases name with
    | nil => simp only [List.map_cons, List.map_nil, reduceCtorEq]
    | cons d name =>
      rw [List.all_cons, Bool.and_eq_true, decide_eq_true_eq] at h
      obtain ⟨first, later⟩ := h
      simp only [List.map_cons, List.cons_eq_cons, foldLetter_eq_iff first, ih later]

end WcagAudit
