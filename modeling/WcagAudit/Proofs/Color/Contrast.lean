import WcagAudit.Proofs.Color.Conversion

/-! The contrast between two colours does not depend on their order, and neither does the answer of the
check.  This is a fact about floating point numbers as they are compared, added and divided, and nothing is
asked of the luminances: of two that are equal, of two zeros of different sign and of one that is not a
number, either may be taken for the lighter. -/

namespace WcagAudit

open Float.Model (UnpackedFloat Format)

section

variable {x y : UnpackedFloat}

theorem compare_swap (x y : UnpackedFloat) : y.compare x = (x.compare y).map Ordering.swap := by
  have finite (e e' : Int) (m m' : Nat) :
      (compare e' e).then (compare m' m) = ((compare e e').then (compare m m')).swap := by
    rw [Ordering.swap_then, ← Std.OrientedCmp.eq_swap, ← Std.OrientedCmp.eq_swap]
  rcases x with (_ | _) | _ | _ | ⟨_ | _, m, e, _⟩ <;>
    rcases y with (_ | _) | _ | _ | ⟨_ | _, m', e', _⟩ <;> try rfl
  · exact congrArg (fun o => some (Ordering.swap o)) (finite e e' m m')
  · exact congrArg some (finite e e' m m')

theorem notANumber_of_compare (h : x.compare y = none) : x = .notANumber ∨ y = .notANumber := by
  rcases x with (_ | _) | _ | _ | ⟨_ | _, m, e, _⟩ <;>
    rcases y with (_ | _) | _ | _ | ⟨_ | _, m', e', _⟩ <;>
      first | exact .inl rfl | exact .inr rfl | cases h

theorem eq_or_zero_of_compare (h : x.compare y = some .eq) :
    x = y ∨ ∃ s s', x = .zero s ∧ y = .zero s' := by
  have same {e e' : Int} {m m' : Nat} (h : (compare e e').then (compare m m') = .eq) : e = e' ∧ m = m' := by
    rwa [Ordering.then_eq_eq, Std.compare_eq_iff_eq, Std.compare_eq_iff_eq] at h
  rcases x with (_ | _) | _ | s | ⟨_ | _, m, e, _⟩ <;>
    rcases y with (_ | _) | _ | s' | ⟨_ | _, m', e', _⟩ <;> try cases h
  · exact .inl rfl
  · exact .inl rfl
  · exact .inr ⟨s, s', rfl, rfl⟩
  · obtain ⟨rfl, rfl⟩ := same (Ordering.swap_eq_eq.1 (Option.some.inj h))
    exact .inl rfl
  · obtain ⟨rfl, rfl⟩ := same (Option.some.inj h)
    exact .inl rfl

end

section

variable {x y : Float}

theorem lt_iff_compare : x < y ↔ x.toModel.unpack.compare y.toModel.unpack = some .lt := by
  change decide (Float.Model.lt x.toModel y.toModel = true) = true ↔ _
  simp [Float.Model.lt, UnpackedFloat.lt]

def notANumber : Float := .ofModel (Float.Model.pack .notANumber)

theorem add_eq_notANumber (h : x.toModel.unpack = .notANumber) (z : Float) : x + z = notANumber := by
  change Float.ofModel (.pack (.add .binary64 x.toModel.unpack z.toModel.unpack)) = _
  rw [h]
  rfl

theorem div_eq_notANumber (h : x = notANumber ∨ y = notANumber) : x / y = notANumber := by
  change Float.ofModel (.pack (.div .binary64 x.toModel.unpack y.toModel.unpack)) = _
  have unpacked : notANumber.toModel.unpack = .notANumber := rfl
  rcases h with rfl | rfl
  · rw [unpacked]
    rfl
  · rw [unpacked]
    cases x.toModel.unpack <;> rfl

/-- Two zeros are the same to a sum with a number that is none. -/
theorem add_eq_add (h : x.toModel.unpack.compare y.toModel.unpack = some .eq) {z : Float}
    (finite : ∃ s m e pos, z.toModel.unpack = .finite s m e pos) : x + z = y + z := by
  change Float.ofModel (.pack (.add .binary64 x.toModel.unpack z.toModel.unpack)) =
    Float.ofModel (.pack (.add .binary64 y.toModel.unpack z.toModel.unpack))
  obtain ⟨s, m, e, pos, hz⟩ := finite
  rw [hz]
  obtain same | ⟨s, s', hx, hy⟩ := eq_or_zero_of_compare h
  · rw [same]
  · rw [hx, hy]
    rfl

end

theorem Rgb.contrast_comm (c d : Rgb) : c.contrast d = d.contrast c := by
  have opposite := compare_swap c.luminance.toModel.unpack d.luminance.toModel.unpack
  simp only [contrast, gt_iff_lt, lt_iff_compare, opposite]
  -- Where neither is the greater, the first is the lighter in one order and the second in the other.
  cases h : c.luminance.toModel.unpack.compare d.luminance.toModel.unpack with
  | none =>
    have indefinite : c.luminance + 0.05 = notANumber ∨ d.luminance + 0.05 = notANumber :=
      (notANumber_of_compare h).imp (add_eq_notANumber · _) (add_eq_notANumber · _)
    simp [div_eq_notANumber indefinite, div_eq_notANumber indefinite.symm]
  | some o =>
    cases o with
    | lt => simp
    | gt => simp
    | eq =>
      have same : c.luminance + 0.05 = d.luminance + 0.05 := add_eq_add h ⟨_, _, _, _, rfl⟩
      simp [same]

namespace Color

def Refused (t : List Char) : Prop := ∃ e, convert t = .error e

instance (t : List Char) : Decidable (Refused t) :=
  match h : convert t with
  | .error e => .isTrue ⟨e, h⟩
  | .ok _ => .isFalse fun ⟨_, he⟩ => nomatch h.symm.trans he

variable {first second : List Char} {c d : Rgb}

theorem check_of_convert (hc : convert first = .ok c) (hd : convert second = .ok d) :
    check first second = ⟨.ok (c.contrast d ≥ Rgb.enoughForText), [⟨first, second, c.contrast d⟩]⟩ := by
  simp only [check, compare, hc, hd]
  rfl

theorem check_of_first {e : Unsupported} (h : convert first = .error e) :
    check first second = ⟨.error ⟨first⟩, []⟩ := by
  rw [eq_of_convert_error h] at h
  simp only [check, compare, h]
  rfl

theorem check_of_second {e : Unsupported} (hc : convert first = .ok c) (h : convert second = .error e) :
    check first second = ⟨.error ⟨second⟩, []⟩ := by
  rw [eq_of_convert_error h] at h
  simp only [check, compare, hc, h]
  rfl

theorem answer_comm (first second : List Char) :
    (check second first).answer.toOption = (check first second).answer.toOption := by
  cases hc : convert first with
  | error e =>
    cases hd : convert second with
    | error e' =>
      rw [check_of_first hc, check_of_first hd]
      rfl
    | ok d =>
      rw [check_of_first hc, check_of_second hd hc]
  | ok c =>
    cases hd : convert second with
    | error e' =>
      rw [check_of_first hd, check_of_second hc hd]
    | ok d => rw [check_of_convert hc hd, check_of_convert hd hc, Rgb.contrast_comm]

/-- The order of two literals makes no difference to the answer.  There is none exactly if one of them is
no colour; it is then the first such that is told, and no comparison.  Otherwise there is a single comparison,
whose ratio does not depend on the order either, and the two colours alone decide. -/
theorem check_comm (first second : List Char) :
    (check second first).answer.toOption = (check first second).answer.toOption ∧
    ((∃ e, (check first second).answer = .error e) ↔ ∃ t ∈ [first, second], Refused t) ∧
    (∀ e, (check first second).answer = .error e →
      [first, second].find? (fun t => Refused t) = some e.text ∧ (check first second).told = []) ∧
    (∀ passes, (check first second).answer = .ok passes →
      ∃ c d, convert first = .ok c ∧ convert second = .ok d ∧ c.contrast d = d.contrast c ∧
        (check first second).told = [⟨first, second, c.contrast d⟩] ∧
        passes = decide (c.contrast d ≥ Rgb.enoughForText)) := by
  refine ⟨answer_comm first second, ?_⟩
  cases hc : convert first with
  | error e =>
    have refused : Refused first := ⟨e, hc⟩
    simp [check_of_first hc, refused]
  | ok c =>
    have accepted : ¬Refused first := fun ⟨_, he⟩ => nomatch hc.symm.trans he
    cases hd : convert second with
    | error e =>
      have refused : Refused second := ⟨e, hd⟩
      simp [check_of_second hc hd, accepted, refused]
    | ok d =>
      have accepted' : ¬Refused second := fun ⟨_, he⟩ => nomatch hd.symm.trans he
      simp [check_of_convert hc hd, accepted, accepted', c.contrast_comm d]

theorem black_with_red_or_grey :
    (check "#000000".toList "red".toList).answer = .error ⟨"red".toList⟩ ∧
      (check "#000000".toList "red".toList).told = [] ∧
      ∃ passes, (check "#000000".toList "rgb(9, 9, 9)".toList).answer = .ok passes ∧
        passes = decide (Rgb.contrast ⟨0, 0, 0⟩ ⟨9, 9, 9⟩ ≥ Rgb.enoughForText) := by
  have refused : (check "#000000".toList "red".toList).answer = .error ⟨"red".toList⟩ := by decide +kernel
  have black : convert "#000000".toList = .ok ⟨0, 0, 0⟩ := by decide +kernel
  have grey : convert "rgb(9, 9, 9)".toList = .ok ⟨9, 9, 9⟩ := by decide +kernel
  have answered := congrArg Check.answer (check_of_convert black grey)
  refine ⟨refused, ((check_comm _ _).2.2.1 _ refused).2, _, answered, ?_⟩
  obtain ⟨c, d, hc, hd, -, -, passes⟩ := (check_comm _ _).2.2.2 _ answered
  rw [passes, Except.ok.inj (hc.symm.trans black), Except.ok.inj (hd.symm.trans grey)]

end Color

end WcagAudit
