import WcagAudit.Proofs.Color.Spelling

namespace WcagAudit.Color

open Pattern

abbrev HexDigit := {c : Char // isHexDigit c}

def HexDigit.value (d : HexDigit) : Nat := hexValue d.val

inductive HexDigits where
  | short (a b d : HexDigit)
  | long (a b d e f g : HexDigit)

namespace HexDigits

def digits : HexDigits → List Char
  | short a b d => [a.val, b.val, d.val]
  | long a b d e f g => [a.val, b.val, d.val, e.val, f.val, g.val]

def colour : HexDigits → Rgb
  | short a b d => ⟨0, a.value.toUInt8, (16 * b.value + d.value).toUInt8⟩
  | long a b d e f g => ⟨(16 * a.value + b.value).toUInt8, (16 * d.value + e.value).toUInt8,
      (16 * f.value + g.value).toUInt8⟩

end HexDigits

theorem describes_hexLiteral : hexLiteral.Describes fun h : HexDigits => '#' :: h.digits := by
  have digit := describes_one isHexDigit
  have triple := (digit.append digit).append digit
  refine (((describes_char '#').append triple).append triple.optional).map
    (fun | ((_, (a, b), d), none) => .short a b d
         | ((_, (a, b), d), some ((e, f), g)) => .long a b d e f g) ?_ ?_
  · rintro ⟨⟨_, ⟨a, b⟩, d⟩, _ | ⟨⟨e, f⟩, g⟩⟩ <;> rfl
  · rintro (⟨a, b, d⟩ | ⟨a, b, d, e, f, g⟩)
    · exact ⟨(((), (a, b), d), none), rfl⟩
    · exact ⟨(((), (a, b), d), some ((e, f), g)), rfl⟩

theorem HexDigit.value_lt (d : HexDigit) : d.value < 16 := by
  obtain ⟨c, h⟩ := d
  have h : c.isDigit ∨ ('a' ≤ c ∧ c ≤ 'f') ∨ 'A' ≤ c ∧ c ≤ 'F' := by
    simpa [isHexDigit, or_assoc] using h
  simp only [value, hexValue, digitValue, isDigit_iff, Char.le_def, UInt32.le_iff_toNat_le] at h ⊢
  simp only [Char.reduceVal, UInt32.reduceToNat, Char.toNat] at h ⊢
  split
  · omega
  · split <;> omega

theorem toUInt8_eq {m n : Nat} (h : m % 256 = n % 256) : m.toUInt8 = n.toUInt8 := by
  rw [← UInt8.toNat_inj]
  simpa using h

theorem ofNat_ofHex (h : HexDigits) : Rgb.ofNat (ofHex h.digits) = h.colour := by
  cases h with
  | short a b d =>
    have value : ofHex [a.val, b.val, d.val] = 16 * (16 * a.value + b.value) + d.value := by
      simp [ofHex, HexDigit.value]
    have bounds := And.intro a.value_lt (And.intro b.value_lt d.value_lt)
    simp only [HexDigits.digits, HexDigits.colour, value, Rgb.ofNat, Rgb.mk.injEq]
    exact ⟨toUInt8_eq (n := 0) (by omega), toUInt8_eq (by omega), toUInt8_eq (by omega)⟩
  | long a b d e f g =>
    have value : ofHex [a.val, b.val, d.val, e.val, f.val, g.val] = 65536 * (16 * a.value + b.value) +
        256 * (16 * d.value + e.value) + (16 * f.value + g.value) := by
      simp only [ofHex, List.foldl_cons, List.foldl_nil, HexDigit.value]
      omega
    have bounds := And.intro d.value_lt (And.intro e.value_lt (And.intro f.value_lt g.value_lt))
    simp only [HexDigits.digits, HexDigits.colour, value, Rgb.ofNat, Rgb.mk.injEq]
    exact ⟨toUInt8_eq (by omega), toUInt8_eq (by omega), toUInt8_eq (by omega)⟩

inductive Literal where
  | hex (h : HexDigits)
  | rgb (s : Spelling) (tight : s.Tight)
  | hsl (s : Spelling)

namespace Literal

def text : Literal → List Char
  | hex h => '#' :: h.digits
  | rgb s _ => s.text .rgb
  | hsl s => s.text .hsl

def mode : Literal → Mode
  | hex _ => .hex
  | rgb .. => .rgb
  | hsl _ => .hsl

def colour? : Literal → Option Rgb
  | hex h => some h.colour
  | rgb s _ =>
    if s.first.value ≤ 255 ∧ s.second.value ≤ 255 ∧ s.third.value ≤ 255 then
      some ⟨s.first.value.toUInt8, s.second.value.toUInt8, s.third.value.toUInt8⟩
    else none
  | hsl s => some (Rgb.ofHsl s.first.value.toFloat s.second.value.toFloat s.third.value.toFloat)

end Literal

def grammars : List (Mode × Pattern) := [(.hex, hexLiteral), (.rgb, rgbLiteral), (.hsl, hslLiteral)]

theorem covers_iff_literal {g : Mode × Pattern} (listed : g ∈ grammars) {t : List Char} :
    g.2.covers t ↔ ∃ l : Literal, l.mode = g.1 ∧ t = l.text := by
  simp only [grammars, List.mem_cons, List.not_mem_nil, or_false] at listed
  rcases listed with rfl | rfl | rfl
  · rw [describes_hexLiteral.covers_iff]
    constructor
    · rintro ⟨h, rfl⟩
      exact ⟨.hex h, rfl, rfl⟩
    · rintro ⟨h | _ | _, mode, rfl⟩
      · exact ⟨h, rfl⟩
      all_goals cases mode
  · rw [describes_rgbLiteral.covers_iff]
    constructor
    · rintro ⟨⟨s, tight⟩, rfl⟩
      exact ⟨.rgb s tight, rfl, rfl⟩
    · rintro ⟨_ | ⟨s, tight⟩ | _, mode, rfl⟩
      · cases mode
      · exact ⟨⟨s, tight⟩, rfl⟩
      · cases mode
  · rw [describes_hslLiteral.covers_iff]
    constructor
    · rintro ⟨s, rfl⟩
      exact ⟨.hsl s, rfl, rfl⟩
    · rintro ⟨_ | _ | s, mode, rfl⟩
      · cases mode
      · cases mode
      · exact ⟨s, rfl⟩

def Mode.initial : Mode → Option Char
  | hex => '#'
  | rgb => 'r'
  | hsl => 'h'
  | unknown => none

theorem Mode.initial_injective : Function.Injective initial := by
  rintro (_ | _ | _ | _) (_ | _ | _ | _) h <;> first | rfl | exact absurd h (by decide)

/-- No text is a literal of two modes. -/
theorem Literal.mode_eq_of_text_eq {l l' : Literal} (h : l.text = l'.text) : l.mode = l'.mode := by
  have first (l : Literal) : l.text.head? = l.mode.initial := by cases l <;> rfl
  exact Mode.initial_injective (by rw [← first, ← first, h])

theorem Literal.covers_text_iff (l : Literal) {g : Mode × Pattern} (listed : g ∈ grammars) :
    g.2.covers l.text ↔ l.mode = g.1 := by
  rw [covers_iff_literal listed]
  constructor
  · rintro ⟨l', mode, same⟩
    rw [← mode, mode_eq_of_text_eq same]
  · intro mode
    exact ⟨l, mode, rfl⟩

theorem detect_literal {t : List Char} {l : Literal} (h : trim t = l.text) : detect t = l.mode := by
  have hex := l.covers_text_iff (g := (.hex, hexLiteral)) (.head _)
  have rgb := l.covers_text_iff (g := (.rgb, rgbLiteral)) (.tail _ (.head _))
  have hsl := l.covers_text_iff (g := (.hsl, hslLiteral)) (.tail _ (.tail _ (.head _)))
  simp only [detect, h, hex, rgb, hsl]
  cases l <;> rfl

theorem detect_unknown {t : List Char} (h : ∀ l : Literal, trim t ≠ l.text) : detect t = .unknown := by
  have uncovered {g : Mode × Pattern} (listed : g ∈ grammars) : ¬g.2.covers (trim t) := fun covered => by
    obtain ⟨l, -, same⟩ := (covers_iff_literal listed).1 covered
    exact h l same
  rw [detect, if_neg (uncovered (g := (.hex, hexLiteral)) (.head _)),
    if_neg (uncovered (g := (.rgb, rgbLiteral)) (.tail _ (.head _))),
    if_neg (uncovered (g := (.hsl, hslLiteral)) (.tail _ (.tail _ (.head _))))]

theorem ofHexLiteral_eq {t : List Char} {h : HexDigits} (ht : trim t = (Literal.hex h).text) :
    ofHexLiteral t = .ok h.colour := by
  have covered := describes_hexLiteral.covers_iff.2 ⟨h, rfl⟩
  simp only [ofHexLiteral, ht, Literal.text, covered, if_true, List.drop_succ_cons, List.drop_zero, ofNat_ofHex]

theorem Numeral.number?_eq (n : Numeral) : number? n.digits = some n.value :=
  if_pos (Nat.lt_trans n.value_lt (by decide))

theorem leading?_eq {t : List Char} {f : Form} {s : Spelling} (h : trim t = s.text f) :
    leading? t = some (s.first.value, s.second.value, s.third.value) := by
  obtain ⟨v, w, blank, -, around⟩ := exists_trim t
  have runs : digitRuns t = s.numerals ++ digitRuns (f.unit ++ (s.closed ++ w)) := by
    rw [around, h, List.append_assoc, digitRuns_pass (Gap.not_isDigit ⟨v, blank⟩), s.digitRuns_text]
  simp only [leading?, runs, Spelling.numerals, List.cons_append, Numeral.number?_eq]
  rfl

theorem convert_literal {t : List Char} {l : Literal} (h : trim t = l.text) :
    convert t = l.colour?.elim (.error ⟨t⟩) .ok := by
  rw [convert, detect_literal h]
  cases l with
  | hex d => exact ofHexLiteral_eq h
  | rgb s tight =>
    have read : ofRgbLiteral? t = (Literal.rgb s tight).colour? := by
      simp [ofRgbLiteral?, leading?_eq h, ofChannels?, Literal.colour?, Nat.lt_succ_iff, and_assoc]
    simp only [Literal.mode, read]
  | hsl s =>
    have read : ofHslLiteral? t = (Literal.hsl s).colour? := by
      rw [ofHslLiteral?, leading?_eq h]
      rfl
    simp only [Literal.mode, read]

theorem convert_unknown {t : List Char} (h : ∀ l : Literal, trim t ≠ l.text) : convert t = .error ⟨t⟩ := by
  rw [convert, detect_unknown h]

theorem eq_of_convert_error {t : List Char} {e : Unsupported} (h : convert t = .error e) : e = ⟨t⟩ := by
  by_cases known : ∃ l : Literal, trim t = l.text
  · obtain ⟨l, hl⟩ := known
    rw [convert_literal hl] at h
    cases hc : l.colour? with
    | none => simpa [hc, eq_comm] using h
    | some c => simp [hc] at h
  · rw [convert_unknown (not_exists.1 known)] at h
    exact (Except.error.inj h).symm

/-- A text is converted as the literal that it is, white space around it left out.  A text that is no
literal is refused, and so is one with a numeral over 255 for a channel.  What is refused is told as it was
given.  A text has the mode of the one grammar that covers it; there are never two. -/
theorem convert_decodes (t : List Char) :
    (∀ l : Literal, trim t = l.text →
      detect t = l.mode ∧ convert t = l.colour?.elim (.error ⟨t⟩) .ok) ∧
    ((∀ l : Literal, trim t ≠ l.text) → detect t = .unknown) ∧
    (detect t = .unknown → convert t = .error ⟨t⟩) ∧
    (∀ e, convert t = .error e → e = ⟨t⟩) ∧
    (grammars.countP (·.2.covers (trim t)) = if detect t = .unknown then 0 else 1) := by
  refine ⟨fun l h => ⟨detect_literal h, convert_literal h⟩, detect_unknown, fun unknown => ?_,
    fun e => eq_of_convert_error, ?_⟩
  · rw [convert, unknown]
  · by_cases known : ∃ l : Literal, trim t = l.text
    · obtain ⟨l, h⟩ := known
      have single : grammars.countP (·.2.covers (trim t)) = grammars.countP (l.mode == ·.1) := by
        rw [h]
        exact List.countP_congr fun g listed => by rw [l.covers_text_iff listed, beq_iff_eq]
      rw [single, detect_literal h]
      cases l <;> rfl
    · have none := not_exists.1 known
      rw [detect_unknown none, if_pos rfl, List.countP_eq_zero]
      intro g listed covered
      obtain ⟨l, -, same⟩ := (covers_iff_literal listed).1 covered
      exact none l same

theorem spaced_literal_decoded :
    let s : Spelling :=
      { long := true, opening := ⟨[], rfl⟩
        first := { digits := "007".toList }, comma := ⟨⟨[' '], rfl⟩, ⟨[], rfl⟩⟩
        second := { digits := "8".toList }, comma' := ⟨⟨[], rfl⟩, ⟨['\t'], rfl⟩⟩
        third := { digits := "255".toList }, behind := ⟨[], rfl⟩
        opacity := some ⟨⟨[], rfl⟩, { whole := [], fraction := "5".toList }, ⟨[' '], rfl⟩⟩ }
    let t := "\n rgba(007 ,8,\t255,.5 ) ".toList
    trim t = (Literal.rgb s (by decide)).text ∧ detect t = .rgb ∧ convert t = .ok ⟨7, 8, 255⟩ := by
  intro s t
  have read : trim t = s.text .rgb := by decide
  exact ⟨read, (convert_decodes t).1 (.rgb s (by decide)) read⟩

end WcagAudit.Color
