import WcagAudit.Proofs.Text.Normal

namespace WcagAudit

/-- Every opening angle bracket has a closing one further on. -/
def Closed (t : List Char) : Prop := ∀ v, '<' :: v <:+ t → '>' ∈ v

theorem closed_nil : Closed [] := fun _ h => by simpa using h.length_le

theorem closed_cons {c : Char} {t : List Char} :
    Closed (c :: t) ↔ (c = '<' → '>' ∈ t) ∧ Closed t := by
  simp only [Closed, List.suffix_cons_iff, List.cons_eq_cons]
  constructor
  · intro h
    exact ⟨fun hc => h t (.inl ⟨hc.symm, rfl⟩), fun v hv => h v (.inr hv)⟩
  · rintro ⟨here, later⟩ v (⟨hc, rfl⟩ | hv)
    · exact here hc.symm
    · exact later v hv

instance decidableClosed : DecidablePred Closed
  | [] => isTrue closed_nil
  | c :: t =>
    have := decidableClosed t
    decidable_of_iff ((c = '<' → '>' ∈ t) ∧ Closed t) closed_cons.symm

theorem Closed.append {s t : List Char} (hs : Closed s) (ht : Closed t) : Closed (s ++ t) := by
  induction s with
  | nil => exact ht
  | cons c s ih =>
    obtain ⟨here, later⟩ := closed_cons.1 hs
    exact closed_cons.2 ⟨fun hc => List.mem_append_left t (here hc), ih later⟩

theorem Closed.of_not_mem {t : List Char} (h : '<' ∉ t) : Closed t :=
  fun _ hv => absurd (hv.mem List.mem_cons_self) h

theorem Closed.of_append {s t : List Char} (h : Closed (s ++ t)) : Closed t :=
  fun v hv => h v (hv.trans (List.suffix_append s t))

theorem closed_normalize {t : List Char} (h : Closed t) : Closed (normalize t) := by
  induction t with
  | nil => exact closed_nil
  | cons c t ih =>
    obtain ⟨here, later⟩ := closed_cons.1 h
    by_cases hc : isBlank c
    · rw [normalize_cons_blank hc]
      exact ih later
    · rw [normalize_cons_letter hc]
      have gap : '<' ∉ gapBefore t := fun h => absurd (eq_space_of_mem_gapBefore h) (by decide)
      refine closed_cons.2 ⟨fun tag => List.mem_append_right _ ?_, (Closed.of_not_mem gap).append (ih later)⟩
      exact (mem_normalize (by decide)).2 (here tag)

end WcagAudit
