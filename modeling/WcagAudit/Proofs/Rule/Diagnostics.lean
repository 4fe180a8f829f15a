import WcagAudit.Proofs.Rule.Interactive

namespace WcagAudit

open KeyboardAccess

theorem KeyboardAccess.no_warning_told {tag : List Char} :
    (∀ e ∈ told tag, e.isWarning = false) ↔ Operable tag := by
  unfold told
  split <;> simp_all [Event.isWarning]

namespace Rule

/-- A rule passes a document just if it has nothing to say of it, and the rule `aria` says what its first
failing part says.  The rule on keyboard access names the interactive tags one by one, follows each
that is not operable with a warning, and passes a document without a warning. -/
theorem diagnostics_tell_verdict (t : List Char) :
    (∀ r : Rule, r ≠ keyboardAccess → (r.passes t ↔ r.events t = [])) ∧
    ariaProperties.events t = [] ∧
    aria.events t = ((ariaParts.find? fun r => !r.passes t).elim [] fun r => r.events t) ∧
    keyboardAccess.events t = (tags t).flatMap told ∧ (tags t).flatten.Sublist (Comment.remove t) ∧
    (keyboardAccess.passes t ↔ ∀ e ∈ keyboardAccess.events t, e.isWarning = false) := by
  refine ⟨fun r hr => passes_iff_events_eq_nil hr, ?_, events_aria, events_keyboardAccess t,
    flatten_tags_sublist t, ?_⟩
  · exact (passes_iff_events_eq_nil (by decide)).1 (passes_ariaProperties t)
  · rw [passes_keyboardAccess_iff, events_keyboardAccess]
    simp only [List.forall_mem_flatMap, no_warning_told]

example : keyboardAccess.events "<a><!-- <b>--><button OnClick=''><input>".toList =
    [.evaluatingAccess "<a>".toList, .notOperable "<a>".toList,
      .evaluatingAccess "<button OnClick=''>".toList,
      .evaluatingAccess "<input>".toList, .notOperable "<input>".toList] := by decide +kernel

end Rule
end WcagAudit
