import WcagAudit.Json.Parser
import WcagAudit.Proofs.Text.Digits

namespace WcagAudit

structure Numeral.Proper (n : Numeral) : Prop where
  whole_ne_nil : n.whole ≠ []
  whole_digits : ∀ c ∈ n.whole, c.isDigit
  whole_zero : ∀ t, n.whole = '0' :: t → t = []
  fraction : ∀ ds ∈ n.fraction, ds ≠ [] ∧ ∀ c ∈ ds, c.isDigit
  exponent : ∀ e ∈ n.exponent, e.2 ≠ [] ∧ ∀ c ∈ e.2, c.isDigit

theorem Numeral.proper_ofNat (n : Nat) : (ofNat n).Proper where
  whole_ne_nil := toDecimal_ne_nil n
  whole_digits _ := isDigit_of_mem_toDecimal
  whole_zero _ := toDecimal_eq_zero_cons
  fraction := nofun
  exponent := nofun

theorem Numeral.toNat?_ofNat (n : Nat) : (ofNat n).toNat? = some n := by
  simp [ofNat, toNat?]

namespace Json

def Closes (rest : List Char) : Prop :=
  ∀ c ∈ rest.head?, ¬c.isDigit ∧ c ≠ '.' ∧ c ≠ 'e' ∧ c ≠ 'E'

variable {ds rest : List Char}

theorem digits_run (h : ∀ c ∈ ds, c.isDigit) (ends : ∀ c ∈ rest.head?, ¬c.isDigit) :
    digits (ds ++ rest) = (ds, rest) := by
  rw [digits, takeWhile_run h ends, dropWhile_run h ends]

theorem wholePart?_run (nonempty : ds ≠ []) (h : ∀ c ∈ ds, c.isDigit)
    (zero : ∀ t, ds = '0' :: t → t = []) (ends : ∀ c ∈ rest.head?, ¬c.isDigit) :
    wholePart? (ds ++ rest) = some (ds, rest) := by
  rw [wholePart?, digits_run h ends]
  split
  · next run =>
    cases run
    exact absurd rfl nonempty
  · next run =>
    cases run
    cases zero _ rfl
  · next run => rw [← run]

theorem fraction?_none (ends : ∀ c ∈ rest.head?, c ≠ '.') : fraction? rest = some (none, rest) := by
  cases rest with
  | nil => rfl
  | cons c rest =>
    rw [fraction?]
    exact fun t text => ends c rfl (List.cons.inj text).1

theorem fraction?_some (nonempty : ds ≠ []) (h : ∀ c ∈ ds, c.isDigit)
    (ends : ∀ c ∈ rest.head?, ¬c.isDigit) :
    fraction? ('.' :: (ds ++ rest)) = some (some ds, rest) := by
  rw [fraction?, digits_run h ends]
  split
  · next run =>
    cases run
    exact absurd rfl nonempty
  · next run => cases run; rfl

theorem exponent?_none (ends : ∀ c ∈ rest.head?, c ≠ 'e' ∧ c ≠ 'E') :
    exponent? rest = some (none, rest) := by
  cases rest with
  | nil => rfl
  | cons c rest => simp [exponent?, ends c rfl]

theorem exponentDigits?_run (nonempty : ds ≠ []) (h : ∀ c ∈ ds, c.isDigit)
    (ends : ∀ c ∈ rest.head?, ¬c.isDigit) (negative : Bool) :
    exponentDigits? negative (ds ++ rest) = some (some (negative, ds), rest) := by
  rw [exponentDigits?, digits_run h ends]
  split
  · next run =>
    cases run
    exact absurd rfl nonempty
  · next run => cases run; rfl

theorem exponent?_some (nonempty : ds ≠ []) (h : ∀ c ∈ ds, c.isDigit)
    (ends : ∀ c ∈ rest.head?, ¬c.isDigit) (negative : Bool) :
    exponent? ('e' :: ((if negative then ['-'] else []) ++ ds ++ rest)) =
      some (some (negative, ds), rest) := by
  cases negative with
  | true => exact exponentDigits?_run nonempty h ends true
  | false =>
    obtain ⟨d, ds, rfl⟩ := List.exists_cons_of_ne_nil nonempty
    have digit : d.isDigit := h d List.mem_cons_self
    have read := exponentDigits?_run nonempty h ends false
    simp only [Bool.false_eq_true, if_false, List.nil_append, List.cons_append] at *
    rw [← read, exponent?]
    · rfl
    · rintro t text
      cases text
      cases digit
    · rintro t text
      cases text
      cases digit

def exponentText : Option (Bool × List Char) → List Char
  | some (negative, digits) => 'e' :: (if negative then ['-'] else []) ++ digits
  | none => []

def fractionText : Option (List Char) → List Char
  | some digits => '.' :: digits
  | none => []

theorem text_eq (n : Numeral) : n.text = (if n.negative then ['-'] else []) ++
    (n.whole ++ (fractionText n.fraction ++ exponentText n.exponent)) := by
  rw [Numeral.text, List.append_assoc, List.append_assoc]
  rfl

theorem exists_head_text {n : Numeral} (h : n.Proper) :
    ∃ c t, n.text = c :: t ∧ (c = '-' ∨ c.isDigit) := by
  rw [text_eq]
  cases n.negative with
  | true => exact ⟨_, _, rfl, .inl rfl⟩
  | false =>
    obtain ⟨d, ds, whole⟩ := List.exists_cons_of_ne_nil h.whole_ne_nil
    rw [whole]
    exact ⟨d, _, rfl, .inr (h.whole_digits d (whole ▸ List.mem_cons_self))⟩

theorem unsigned?_text {n : Numeral} (h : n.Proper) (closes : Closes rest) :
    unsigned? n.negative (n.whole ++ (fractionText n.fraction ++ (exponentText n.exponent ++ rest))) =
      some (n, rest) := by
  obtain ⟨negative, whole, fraction, exponent⟩ := n
  have afterFraction : ∀ c ∈ (exponentText exponent ++ rest).head?, ¬c.isDigit ∧ c ≠ '.' := by
    cases exponent with
    | none => exact fun c hc => ⟨(closes c hc).1, (closes c hc).2.1⟩
    | some e => rintro c ⟨⟩; decide
  have afterWhole : ∀ c ∈ (fractionText fraction ++ (exponentText exponent ++ rest)).head?,
      ¬c.isDigit := by
    cases fraction with
    | none => exact fun c hc => (afterFraction c hc).1
    | some ds => rintro c ⟨⟩; decide
  have wholeRead := wholePart?_run h.whole_ne_nil h.whole_digits h.whole_zero afterWhole
  have fractionRead : fraction? (fractionText fraction ++ (exponentText exponent ++ rest)) =
      some (fraction, exponentText exponent ++ rest) := by
    cases fraction with
    | none => exact fraction?_none fun c hc => (afterFraction c hc).2
    | some ds =>
      obtain ⟨nonempty, allDigits⟩ := h.fraction ds rfl
      exact fraction?_some nonempty allDigits fun c hc => (afterFraction c hc).1
  have exponentRead : exponent? (exponentText exponent ++ rest) = some (exponent, rest) := by
    cases exponent with
    | none => exact exponent?_none fun c hc => (closes c hc).2.2
    | some e =>
      obtain ⟨nonempty, allDigits⟩ := h.exponent e rfl
      exact exponent?_some nonempty allDigits (fun c hc => (closes c hc).1) e.1
  simp only [unsigned?, wholeRead, fractionRead, exponentRead, bind, Option.bind, pure]

theorem numeral?_text {n : Numeral} (h : n.Proper) (closes : Closes rest) :
    numeral? (n.text ++ rest) = some (n, rest) := by
  have read := unsigned?_text h closes
  rw [text_eq]
  simp only [List.append_assoc]
  cases sign : n.negative with
  | true =>
    rw [sign] at read
    exact read
  | false =>
    rw [sign] at read
    obtain ⟨d, ds, whole⟩ := List.exists_cons_of_ne_nil h.whole_ne_nil
    have digit : d.isDigit := h.whole_digits d (whole ▸ List.mem_cons_self)
    simp only [whole, Bool.false_eq_true, if_false, List.nil_append, List.cons_append] at *
    rw [← read, numeral?]
    rintro t text
    cases text
    cases digit

end Json
end WcagAudit
