import WcagAudit.Text.Blank
import WcagAudit.Text.Digits
import Mathlib.Data.List.Induction

namespace WcagAudit

theorem ofDecimal_eq (t : List Char) : ofDecimal t = Nat.ofDigitChars 10 t 0 :=
  Nat.ofDigitChars_eq_foldl.symm

@[simp] theorem ofDecimal_toDecimal (n : Nat) : ofDecimal (toDecimal n) = n := by
  rw [ofDecimal_eq]
  exact Nat.ofDigitChars_ten_toDigits

theorem isDigit_of_mem_toDecimal {n : Nat} {c : Char} (h : c ∈ toDecimal n) : c.isDigit :=
  Nat.isDigit_of_mem_toDigits (by decide) (by decide) h

theorem toDecimal_ne_nil (n : Nat) : toDecimal n ≠ [] := Nat.toDigits_ne_nil

theorem toDecimal_eq_zero_cons {n : Nat} {t : List Char} (h : toDecimal n = '0' :: t) : t = [] := by
  induction n using Nat.strongRecOn generalizing t with
  | ind n ih =>
    by_cases small : n < 10
    · rw [toDecimal, Nat.toDigits_of_lt_base small] at h
      exact (List.cons.inj h).2.symm
    · have split : toDecimal n = toDecimal (n / 10) ++ [(n % 10).digitChar] :=
        Nat.toDigits_of_base_le (by decide) (by omega)
      obtain ⟨c, front, front_eq⟩ := List.exists_cons_of_ne_nil (toDecimal_ne_nil (n / 10))
      rw [split, front_eq, List.cons_append, List.cons.injEq] at h
      obtain ⟨rfl, -⟩ := h
      rw [ih (n / 10) (by omega) front_eq] at front_eq
      have value := ofDecimal_toDecimal (n / 10)
      rw [front_eq] at value
      have zero : n / 10 = 0 := value.symm
      omega

@[simp] theorem ofDecimal_toDecimalPadded (width n : Nat) :
    ofDecimal (toDecimalPadded width n) = n := by
  rw [toDecimalPadded, padLeft, ofDecimal_eq, Nat.ofDigitChars_append,
    Nat.ofDigitChars_replicate_zero, Nat.mul_zero]
  exact Nat.ofDigitChars_ten_toDigits

theorem isDigit_of_mem_toDecimalPadded {width n : Nat} {c : Char} (h : c ∈ toDecimalPadded width n) :
    c.isDigit := by
  obtain fill | digit := List.mem_append.1 h
  · rw [List.eq_of_mem_replicate fill]
    decide
  · exact isDigit_of_mem_toDecimal digit

theorem length_toDecimalPadded {width n : Nat} (pos : 0 < width) (h : n < Nat.pow 10 width) :
    (toDecimalPadded width n).length = width := by
  have fits : (toDecimal n).length ≤ width := (Nat.length_toDigits_le_iff (by decide) pos).2 h
  rw [toDecimalPadded, padLeft, List.length_append, List.length_replicate]
  omega

theorem toDecimalPadded_ne_nil (width n : Nat) : toDecimalPadded width n ≠ [] :=
  List.append_ne_nil_of_right_ne_nil _ (toDecimal_ne_nil n)

theorem isDigit_iff {c : Char} : c.isDigit ↔ 48 ≤ c.toNat ∧ c.toNat ≤ 57 := by
  simp [Char.isDigit, UInt32.le_iff_toNat_le]

theorem digitValue_lt {c : Char} (h : c.isDigit) : digitValue c < 10 := by
  obtain ⟨-, h⟩ := isDigit_iff.1 h
  exact Nat.lt_succ_of_le (Nat.sub_le_of_le_add h)

theorem ofDecimal_lt {ds : List Char} (h : ds.all Char.isDigit) : ofDecimal ds < Nat.pow 10 ds.length := by
  induction ds using List.reverseRecOn with
  | nil => decide
  | append_singleton ds d ih =>
    simp only [List.all_append, Bool.and_eq_true, List.all_cons, List.all_nil, and_true] at h
    have front := ih h.1
    have last := digitValue_lt h.2
    have longer : Nat.pow 10 (ds ++ [d]).length = Nat.pow 10 ds.length * 10 := by
      rw [List.length_append, List.length_singleton]
      rfl
    rw [longer]
    simp only [ofDecimal, List.foldl_append, List.foldl_cons, List.foldl_nil] at front ⊢
    omega

theorem not_isBlank_of_isDigit {c : Char} (h : c.isDigit) : ¬isBlank c := by
  rw [isDigit_iff] at h
  simp [isBlank, blankRanges]
  omega

section

variable {p : Char → Bool} {ds rest : List Char}

theorem takeWhile_run (h : ∀ c ∈ ds, p c) (ends : ∀ c ∈ rest.head?, ¬p c) :
    (ds ++ rest).takeWhile p = ds := by
  rw [List.takeWhile_append_of_pos h]
  cases rest with
  | nil => simp
  | cons c rest => simp [ends c rfl]

theorem dropWhile_run (h : ∀ c ∈ ds, p c) (ends : ∀ c ∈ rest.head?, ¬p c) :
    (ds ++ rest).dropWhile p = rest := by
  rw [List.dropWhile_append_of_pos h]
  cases rest with
  | nil => rfl
  | cons c rest => simp [ends c rfl]

end

theorem digitRuns_append_cons {c : Char} (h : ¬c.isDigit) (x y : List Char) :
    digitRuns (x ++ c :: y) = digitRuns x ++ digitRuns y := by
  rw [digitRuns, piecesBy_append (by simpa using h), List.filter_append, digitRuns, digitRuns]

theorem digitRuns_run {ds : List Char} (decimal : ds.all Char.isDigit) (filled : ds ≠ []) {c : Char}
    (h : ¬c.isDigit) (x : List Char) : digitRuns (ds ++ c :: x) = ds :: digitRuns x := by
  have whole : piecesBy (!Char.isDigit ·) ds = [ds] :=
    piecesBy_of_forall_not fun d hd => by simpa using List.all_eq_true.1 decimal d hd
  rw [digitRuns_append_cons h, digitRuns, whole]
  simp [filled]

theorem digitRuns_pass {x : List Char} (h : ∀ c ∈ x, ¬c.isDigit) (y : List Char) :
    digitRuns (x ++ y) = digitRuns y := by
  induction x with
  | nil => rfl
  | cons c x ih =>
    obtain ⟨first, later⟩ := List.forall_mem_cons.1 h
    exact (digitRuns_append_cons first [] (x ++ y)).trans (ih later)

theorem isHexDigit_digitChar (d : Fin 16) : isHexDigit d.val.digitChar := by
  revert d
  decide

theorem hexValue_digitChar (d : Fin 16) : hexValue d.val.digitChar = d.val := by
  revert d
  decide

end WcagAudit
