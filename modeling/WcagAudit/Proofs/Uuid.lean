import WcagAudit.Proofs.Text.Digits
import WcagAudit.Uuid

namespace WcagAudit.Uuid

theorem filter_hyphenate {t : List Char} (h : ∀ c ∈ t, c ≠ '-') (ns : List Nat) :
    (hyphenate ns t).filter (· != '-') = t := by
  have bare {t : List Char} (h : ∀ c ∈ t, c ≠ '-') : t.filter (· != '-') = t :=
    List.filter_eq_self.2 fun c hc => bne_iff_ne.2 (h c hc)
  induction ns generalizing t with
  | nil => exact bare h
  | cons n ns ih =>
    cases ns with
    | nil => exact bare h
    | cons m ns =>
      rw [hyphenate, List.filter_append, List.filter_cons_of_neg (by decide),
        ih fun c hc => h c (List.mem_of_mem_drop hc), bare fun c hc => h c (List.mem_of_mem_take hc),
        List.take_append_drop]
      exact nofun

variable (u : Uuid)

theorem isHexDigit_of_mem_digitText {c : Char} (h : c ∈ u.digitText) : isHexDigit c := by
  obtain ⟨d, -, rfl⟩ := List.mem_map.1 h
  exact isHexDigit_digitChar d

theorem ofDigits?_digitText : ofDigits? u.digitText = some u := by
  have values : u.digitText.map (fun c => Fin.ofNat 16 (hexValue c)) = u.digits := by
    rw [digitText, List.map_map]
    refine (List.map_congr_left fun d _ => ?_).trans (List.map_id _)
    simp [hexValue_digitChar d]
  have hex : u.digitText.all isHexDigit := List.all_eq_true.2 fun _ => u.isHexDigit_of_mem_digitText
  simp only [ofDigits?, hex, if_true, values, u.length_digits, dite_true]

theorem ofHyphenated?_text : ofHyphenated? u.text = some u := by
  have bare : u.text.filter (· != '-') = u.digitText :=
    filter_hyphenate (fun c hc hyphen => by
      have hex := u.isHexDigit_of_mem_digitText hc
      rw [hyphen] at hex
      cases hex) groups
  simp only [ofHyphenated?, bare]
  rw [text, if_pos rfl, ofDigits?_digitText]

theorem exists_text : ∃ (d : Fin 16) (t : List Char), u.text = d.val.digitChar :: t ∧ '-' ∈ t := by
  obtain ⟨digits, length⟩ := u
  cases digits with
  | nil => cases length
  | cons d ds =>
    refine ⟨d, _, rfl, ?_⟩
    exact List.mem_append_right _ List.mem_cons_self

/-- The text of an identifier has hyphens in it and a digit in front, so it is in no other form. -/
theorem ofText?_text : ofText? u.text = some u := by
  obtain ⟨d, t, text, hyphen⟩ := u.exists_text
  have notBare : ofDigits? u.text = none := by
    apply if_neg
    intro hex
    have member : '-' ∈ u.text := text ▸ List.mem_cons_of_mem _ hyphen
    have impossible := List.all_eq_true.1 hex _ member
    cases impossible
  have notNamed : sameAscii (u.text.take namePrefix.length) namePrefix = false := by
    have first : ∀ d : Fin 16, d.val.digitChar.toLower ≠ 'u' := by decide
    rw [text]
    exact beq_eq_false_iff_ne.2 fun same => first d (List.cons.inj same).1
  have notBraced : ∀ t', u.text ≠ '\x7b' :: t' := by
    have first : ∀ d : Fin 16, d.val.digitChar ≠ '\x7b' := by decide
    rw [text]
    exact fun t' braced => first d (List.cons.inj braced).1
  simp only [ofText?, notBare, notNamed]
  exact u.ofHyphenated?_text

end WcagAudit.Uuid
