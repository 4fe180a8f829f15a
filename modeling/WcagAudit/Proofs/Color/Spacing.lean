import WcagAudit.Proofs.Color.Conversion

namespace WcagAudit.Color

namespace Gap

def none : Gap := ⟨[], rfl⟩

theorem count_eq_zero (g : Gap) {d : Char} (hd : ¬isBlank d) : g.text.count d = 0 :=
  List.count_eq_zero.2 fun h => hd (List.all_eq_true.1 g.blank d h)

end Gap

theorem count_digits_eq_zero {ds : List Char} (decimal : ds.all Char.isDigit) {d : Char} (hd : ¬d.isDigit) :
    ds.count d = 0 :=
  List.count_eq_zero.2 fun h => hd (List.all_eq_true.1 decimal d h)

namespace Spelling

def plain (s : Spelling) : Spelling :=
  { s with
    opening := .none, comma := ⟨.none, .none⟩, comma' := ⟨.none, .none⟩, behind := .none
    opacity := s.opacity.map fun o => ⟨.none, o.alpha, .none⟩ }

theorem plain_tight (s : Spelling) : s.plain.Tight := fun _ => rfl

theorem trim_text (s : Spelling) (f : Form) (v w : Gap) : trim (v.text ++ s.text f ++ w.text) = s.text f := by
  have last : (s.text f).getLast? = some ')' := by
    rw [text, closed, ← List.append_assoc, List.getLast?_concat]
  refine trim_between v.blank w.blank ?_ ?_ (by simpa [last] using by decide)
  all_goals cases f <;> simp [text, opened, Form.name] <;> decide

theorem count_comma (s : Spelling) : (s.text .rgb).count ',' = 2 + s.opacity.toList.length := by
  have gap (g : Gap) : g.text.count ',' = 0 := g.count_eq_zero (by decide)
  have digits (n : Numeral) : n.digits.count ',' = 0 := count_digits_eq_zero n.decimal (by decide)
  have alpha (a : Alpha) : a.text.count ',' = 0 := by
    have whole := count_digits_eq_zero a.decimal (d := ',') (by decide)
    have fraction := count_digits_eq_zero a.decimalFraction (d := ',') (by decide)
    rw [Alpha.text]
    split <;> simp [whole, fraction]
  have name : (s.opened .rgb).count ',' = 0 := by
    cases h : s.long <;> simp [opened, Form.name, h, gap]
  cases h : s.opacity <;>
    simp [text, name, closed, Form.unit, Comma.text, Opacity.text, h, gap, digits, alpha]

theorem text_of_opacity_eq_none {s : Spelling} (h : s.opacity = none) :
    ∃ front, s.text .rgb = (front ++ s.third.digits ++ s.behind.text) ++ [')'] :=
  ⟨s.opened .rgb ++ s.first.digits ++ s.comma.text ++ s.second.digits ++ s.comma'.text,
    by simp [text, closed, Form.unit, h]⟩

theorem tight_of_text_eq {s s' : Spelling} (h : s.text .rgb = s'.text .rgb) (tight : s'.Tight) : s.Tight := by
  intro none
  have none' : s'.opacity = .none := by
    have commas := s.count_comma.symm.trans ((congrArg _ h).trans s'.count_comma)
    exact Option.toList_eq_nil_iff.1 (List.length_eq_zero_iff.1 (by simpa [none, eq_comm] using commas))
  obtain ⟨front, text⟩ := text_of_opacity_eq_none none
  obtain ⟨front', text'⟩ := text_of_opacity_eq_none none'
  rw [text, text', tight none', List.append_nil] at h
  have before := List.append_cancel_right h
  -- What the one ends with is a blank, and the other a digit.
  by_contra spaced
  have blank := List.getLast_mem spaced
  have digit := List.getLast_mem s'.third.filled
  have same : s.behind.text.getLast spaced = s'.third.digits.getLast s'.third.filled := by
    have last := congrArg List.getLast? before
    rwa [List.getLast?_append_of_ne_nil _ spaced, List.getLast?_append_of_ne_nil _ s'.third.filled,
      List.getLast?_eq_some_getLast spaced, List.getLast?_eq_some_getLast s'.third.filled,
      Option.some.injEq] at last
  exact s.behind.not_isDigit _ blank (same ▸ List.all_eq_true.1 s'.third.decimal _ digit)

theorem text_ne_literal {s : Spelling} (loose : ¬s.Tight) (l : Literal) : s.text .rgb ≠ l.text := by
  intro h
  cases l with
  | hex d => cases h
  | rgb s' tight => exact loose (tight_of_text_eq h tight)
  | hsl s' => cases h

end Spelling

theorem colour?_eq_some {s : Spelling} (tight : s.Tight) {c : Rgb} (red : s.first.value = c.red.toNat)
    (green : s.second.value = c.green.toNat) (blue : s.third.value = c.blue.toNat) :
    (Literal.rgb s tight).colour? = some c := by
  have small (channel : UInt8) : channel.toNat ≤ 255 := Nat.le_of_lt_succ channel.toNat_lt
  simp [Literal.colour?, red, green, blue, small]

/-- White space between the parts of a functional colour and around it leaves the colour as it is: that of
`hsl()` is the one of its plain spelling, and that of `rgb()` the three channels.  Only where white space
stands in front of the bracket of an `rgb()` without alpha, the text is refused. -/
theorem convert_spaced (s : Spelling) (v w : Gap) :
    convert (v.text ++ s.text .hsl ++ w.text) = convert (s.plain.text .hsl) ∧
    convert (s.plain.text .hsl) =
      .ok (Rgb.ofHsl s.first.value.toFloat s.second.value.toFloat s.third.value.toFloat) ∧
    ∀ c : Rgb, s.first.value = c.red.toNat → s.second.value = c.green.toNat → s.third.value = c.blue.toNat →
      convert (s.plain.text .rgb) = .ok c ∧
      convert (v.text ++ s.text .rgb ++ w.text) =
        if s.Tight then .ok c else .error ⟨v.text ++ s.text .rgb ++ w.text⟩ := by
  have plainly (f : Form) : trim (s.plain.text f) = s.plain.text f := by
    simpa [Gap.none] using s.plain.trim_text f .none .none
  have hsl := convert_literal (l := .hsl s.plain) (plainly .hsl)
  refine ⟨?_, hsl, fun c red green blue => ⟨?_, ?_⟩⟩
  · rw [hsl]
    exact convert_literal (l := .hsl s) (s.trim_text .hsl v w)
  · rw [convert_literal (l := .rgb s.plain s.plain_tight) (plainly .rgb),
      colour?_eq_some s.plain_tight red green blue]
    rfl
  · split
    · next tight =>
      rw [convert_literal (l := .rgb s tight) (s.trim_text .rgb v w), colour?_eq_some tight red green blue]
      rfl
    · next loose =>
      refine convert_unknown fun l => ?_
      rw [s.trim_text]
      exact Spelling.text_ne_literal loose l

def airy : Spelling :=
  let gap : Gap := ⟨[' ', '\t'], rfl⟩
  { long := true, opening := gap, first := { digits := ['0', '7'] }, comma := ⟨gap, gap⟩
    second := { digits := ['8'] }, comma' := ⟨gap, gap⟩, third := { digits := ['9'] }, behind := gap
    opacity := some ⟨gap, { whole := [], fraction := ['5'] }, gap⟩ }

theorem convert_airy :
    airy.first.value = 7 ∧ airy.second.value = 8 ∧ airy.third.value = 9 ∧
      convert ("\n".toList ++ airy.text .rgb ++ " ".toList) = .ok ⟨7, 8, 9⟩ := by
  have first : airy.first.value = 7 := by decide
  have second : airy.second.value = 8 := by decide
  have third : airy.third.value = 9 := by decide
  have tight : airy.Tight := by decide
  have read := ((convert_spaced airy ⟨['\n'], rfl⟩ ⟨[' '], rfl⟩).2.2 ⟨7, 8, 9⟩ first second third).2
  rw [if_pos tight] at read
  exact ⟨first, second, third, read⟩

theorem space_before_bracket_refused :
    convert "rgb(1, 2, 3 )".toList = .error ⟨"rgb(1, 2, 3 )".toList⟩ ∧
      convert "rgb(1, 2, 3)".toList = .ok ⟨1, 2, 3⟩ ∧ convert "rgb(1, 2, 3, 1 )".toList = .ok ⟨1, 2, 3⟩ ∧
      detect "hsl(1, 2%, 3% )".toList = .hsl := by
  decide +kernel

end WcagAudit.Color
