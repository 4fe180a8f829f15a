import WcagAudit.Proofs.Pattern.TagScan
import WcagAudit.Proofs.Text.Spacing

namespace WcagAudit

section

variable {α : Type _} {d : α}

/-- What stands in a text and lacks a character of it stands before that character or behind it. -/
theorem split_at {u x v y z : List α} (h : u ++ (x ++ v) = y ++ d :: z) (hx : d ∉ x) :
    (∃ v', y = u ++ (x ++ v') ∧ v = v' ++ d :: z) ∨ ∃ u', u = y ++ d :: u' ∧ z = u' ++ (x ++ v) := by
  rcases List.append_eq_append_iff.1 h with ⟨a, rfl, ha⟩ | ⟨a, rfl, ha⟩
  · rcases List.append_eq_append_iff.1 ha with ⟨b, rfl, hb⟩ | ⟨b, rfl, hb⟩
    · exact .inl ⟨b, rfl, hb⟩
    · cases b with
      | nil => exact .inl ⟨[], by simp, hb.symm⟩
      | cons c b =>
        obtain ⟨rfl, -⟩ := List.cons_eq_cons.1 hb
        exact absurd (by simp) hx
  · cases a with
    | nil =>
      cases x with
      | nil => exact .inl ⟨[], by simp, ha.symm⟩
      | cons c x =>
        obtain ⟨rfl, -⟩ := List.cons_eq_cons.1 ha
        exact absurd List.mem_cons_self hx
    | cons c a =>
      obtain ⟨rfl, rfl⟩ := List.cons_eq_cons.1 ha
      exact .inr ⟨a, rfl, rfl⟩

theorem infix_append_cons_iff {w y z : List α} (hw : d ∉ w) :
    w <:+: y ++ d :: z ↔ w <:+: y ∨ w <:+: z := by
  constructor
  · rintro ⟨u, v, h⟩
    rw [List.append_assoc] at h
    rcases split_at h hw with ⟨v', rfl, -⟩ | ⟨u', -, rfl⟩
    · exact .inl ⟨u, v', List.append_assoc ..⟩
    · exact .inr ⟨u', v, List.append_assoc ..⟩
  · rintro (h | h)
    · exact h.trans (List.prefix_append y _).isInfix
    · exact h.trans ((List.suffix_cons d z).trans (List.suffix_append y _)).isInfix

theorem append_cons_eq_concat {x w v : List α} {c : α} (h : x ++ c :: w = v ++ [d]) (hc : c ∉ v) :
    x = v ∧ w = [] := by
  rcases List.eq_nil_or_concat w with rfl | ⟨w, e, rfl⟩
  · exact ⟨(List.append_inj' h rfl).1, rfl⟩
  · have split : (x ++ c :: w) ++ [e] = v ++ [d] := by simpa using h
    exact absurd ((List.append_inj' split rfl).1 ▸ by simp) hc

theorem infix_concat_iff {w y : List α} (hw : d ∉ w) : w <:+: y ++ [d] ↔ w <:+: y := by
  refine (infix_append_cons_iff hw).trans (or_iff_left_of_imp fun empty => ?_)
  rw [List.infix_nil.1 empty]
  exact List.nil_infix

end

theorem Word.of_map_foldLetter {x w : List Char} (hw : Word w) (h : x.map foldLetter = w) : Word x := by
  intro c hc blank
  refine hw c ?_ blank
  rw [← h]
  exact List.mem_map.2 ⟨c, hc, foldLetter_of_isBlank blank⟩

theorem infix_fold_normalize {w t : List Char} (hw : Word w) :
    w <:+: (normalize t).map foldLetter ↔ w <:+: t.map foldLetter := by
  have spelled (t : List Char) : w <:+: t.map foldLetter ↔ ∃ x, x <:+: t ∧ x.map foldLetter = w := by
    constructor
    · rintro ⟨u, v, h⟩
      obtain ⟨y, z, rfl, hy, rfl⟩ := List.map_eq_append_iff.1 h.symm
      obtain ⟨x, y, rfl, -, rfl⟩ := List.map_eq_append_iff.1 hy
      exact ⟨y, ⟨x, z, rfl⟩, rfl⟩
    · rintro ⟨x, ⟨u, v, rfl⟩, rfl⟩
      exact ⟨u.map foldLetter, v.map foldLetter, by simp⟩
  rw [spelled, spelled]
  exact exists_congr fun x => and_congr_left fun same => infix_normalize (hw.of_map_foldLetter same)

/-- One of the words stands in the text, up to letter case, behind a character that `before` accepts and in
front of one that `after` does.  The ends of the text count as blanks. -/
def Occurs (words : List (List Char)) (before after : Char → Prop) (t : List Char) : Prop :=
  ∃ u x v, t = u ++ (x ++ v) ∧ x.map foldLetter ∈ words ∧ before (u.getLastD ' ') ∧
    after (v.headD ' ')

theorem occurs_append_cons_iff {words : List (List Char)} {before after : Char → Prop} {d : Char}
    (apart : ∀ word ∈ words, foldLetter d ∉ word) (opens : before d ∧ before ' ')
    (closes : after d ∧ after ' ') (y z : List Char) :
    Occurs words before after (y ++ d :: z) ↔
      Occurs words before after y ∨ Occurs words before after z := by
  have last (u : List Char) : before ((y ++ d :: u).getLastD ' ') ↔ before (u.getLastD ' ') := by
    rw [getLastD_append, List.getLastD_cons]
    cases u with
    | nil => exact iff_of_true opens.1 opens.2
    | cons c u => simp only [List.getLastD_cons]
  have first (v : List Char) : after ((v ++ d :: z).headD ' ') ↔ after (v.headD ' ') := by
    cases v with
    | nil => exact iff_of_true closes.1 closes.2
    | cons c v => rfl
  constructor
  · rintro ⟨u, x, v, h, listed, hu, hv⟩
    have outside : d ∉ x := fun hd => apart _ listed (List.mem_map_of_mem hd)
    rcases split_at h.symm outside with ⟨v', rfl, rfl⟩ | ⟨u', rfl, rfl⟩
    · exact .inl ⟨u, x, v', rfl, listed, hu, (first v').1 hv⟩
    · exact .inr ⟨u', x, v, rfl, listed, (last u').1 hu, hv⟩
  · rintro (⟨u, x, v, rfl, listed, hu, hv⟩ | ⟨u, x, v, rfl, listed, hu, hv⟩)
    · exact ⟨u, x, v ++ d :: z, by simp, listed, hu, (first v).2 hv⟩
    · exact ⟨y ++ d :: u, x, v, by simp, listed, (last u).2 hu, hv⟩

end WcagAudit
