import WcagAudit.Proofs.Comment.Strip

/-! Comments removed twice.  The second time changes something just if a comment stands in what the
first has left.  White space has no part in that: such a comment opens or closes with a mark whose
halves came together when a comment between them was taken out. -/

namespace WcagAudit.Comment

def Bare (t : List Char) : Prop := ∀ u c post, t = u ++ (c ++ post) → ¬Stands c post

theorem bare_nil : Bare [] := by
  intro u c post h stands
  exact stands.ne_nil (List.append_eq_nil_iff.1 (List.append_eq_nil_iff.1 h.symm).2).1

theorem bare_cons {c : Char} {t : List Char} :
    Bare (c :: t) ↔ behindComment? (c :: t) = none ∧ Bare t := by
  rw [Option.eq_none_iff_forall_ne_some]
  constructor
  · intro bare
    refine ⟨fun post h => ?_, fun u w post split => bare (c :: u) w post (by rw [split]; rfl)⟩
    obtain ⟨w, split, stands⟩ := behindComment?_eq_some_iff.1 h
    exact bare [] w post split stands
  · rintro ⟨here, later⟩ u w post split stands
    cases u with
    | nil => exact here post (behindComment?_eq_some_iff.2 ⟨w, split, stands⟩)
    | cons d u => exact later u w post (List.cons_eq_cons.1 split).2 stands

theorem length_strip_le (t : List Char) : (strip t).length ≤ t.length := by
  induction t using strip.induct with
  | case1 => simp
  | case2 c t rest h ih =>
    rw [strip_of_some h]
    exact Nat.le_trans ih (Nat.le_of_lt (length_of_behindComment? h))
  | case3 c t h ih =>
    rw [strip_of_none h]
    exact Nat.succ_le_succ ih

theorem strip_of_bare {t : List Char} (h : Bare t) : strip t = t := by
  induction t with
  | nil => exact strip_nil
  | cons c t ih =>
    obtain ⟨here, later⟩ := bare_cons.1 h
    rw [strip_of_none here, ih later]

theorem length_strip_lt {t : List Char} (h : ¬Bare t) : (strip t).length < t.length := by
  induction t using strip.induct with
  | case1 => exact absurd bare_nil h
  | case2 c t rest found ih =>
    rw [strip_of_some found]
    exact Nat.lt_of_le_of_lt (length_strip_le rest) (length_of_behindComment? found)
  | case3 c t kept ih =>
    rw [strip_of_none kept]
    exact Nat.succ_lt_succ (ih fun bare => h (bare_cons.2 ⟨kept, bare⟩))

def marks : List (List Char × List Char) :=
  [("/*".toList, "*/".toList), ("//".toList, []), ("<!--".toList, "-->".toList)]

theorem isSome_behindComment? {t : List Char} : (behindComment? t).isSome ↔
    ∃ mark ∈ marks, ∃ x, t = mark.1 ++ x ∧ mark.2 <:+: x := by
  simp only [marks, List.mem_cons, List.not_mem_nil, or_false, exists_eq_or_imp, exists_eq_left]
  constructor
  · intro h
    unfold behindComment? at h
    split at h
    · exact .inl ⟨_, rfl, (isSome_behind? (by decide)).1 h⟩
    · exact .inr (.inl ⟨_, rfl, List.nil_infix⟩)
    · exact .inr (.inr ⟨_, rfl, (isSome_behind? (by decide)).1 h⟩)
    · cases h
  · rintro (⟨x, rfl, closed⟩ | ⟨x, rfl, -⟩ | ⟨x, rfl, closed⟩)
    · exact (isSome_behind? (by decide)).2 closed
    · rfl
    · exact (isSome_behind? (by decide)).2 closed

theorem marks_words : ∀ mark ∈ marks, mark.1 ≠ [] ∧ Word mark.1 ∧ Word mark.2 := by
  decide

theorem behindComment?_of_blank {c : Char} (hc : isBlank c) (t : List Char) :
    behindComment? (c :: t) = none := by
  refine behindComment?_of_other (fun h => ?_) t
  simp only [List.mem_cons, List.not_mem_nil, or_false] at h
  rcases h with rfl | rfl <;> exact absurd hc (by decide)

theorem bare_blank_cons {c : Char} (hc : isBlank c) {t : List Char} : Bare (c :: t) ↔ Bare t := by
  rw [bare_cons, and_iff_right (behindComment?_of_blank hc t)]

theorem bare_gap {t n : List Char} : Bare (gapBefore t ++ n) ↔ Bare n := by
  unfold gapBefore
  split
  · exact bare_blank_cons isBlank_space
  · rfl

theorem isSome_behindComment?_normalize {c : Char} (hc : ¬isBlank c) {t : List Char} :
    (behindComment? (normalize (c :: t))).isSome ↔ (behindComment? (c :: t)).isSome := by
  simp only [isSome_behindComment?]
  refine exists_congr fun mark => and_congr_right fun listed => ?_
  obtain ⟨filled, opening, closing⟩ := marks_words mark listed
  constructor
  · rintro ⟨x, split, closed⟩
    obtain ⟨y, hy⟩ : mark.1 <+: c :: t := by
      apply prefix_of_prefix_normalize opening
      rw [gapBefore_of_letter hc, List.nil_append, split]
      exact List.prefix_append _ x
    rw [← hy, normalize_append_word opening filled, List.append_cancel_left_eq] at split
    rw [← split, infix_gap closing, infix_normalize closing] at closed
    exact ⟨y, hy.symm, closed⟩
  · rintro ⟨x, split, closed⟩
    refine ⟨_, by rw [split, normalize_append_word opening filled], ?_⟩
    rwa [infix_gap closing, infix_normalize closing]

theorem bare_normalize {t : List Char} : Bare (normalize t) ↔ Bare t := by
  induction t with
  | nil => rfl
  | cons c t ih =>
    by_cases hc : isBlank c
    · rw [normalize_cons_blank hc, bare_blank_cons hc, ih]
    · have here := isSome_behindComment?_normalize hc (t := t)
      rw [← not_iff_not, Option.not_isSome_iff_eq_none, Option.not_isSome_iff_eq_none] at here
      rw [bare_cons, ← here, normalize_cons_letter hc, bare_cons, bare_gap, ih]

/-- Removing comments twice is removing them once just if no comment stands in what is left. -/
theorem remove_remove {t : List Char} : remove (remove t) = remove t ↔ Bare (strip t) := by
  rw [← bare_normalize, ← remove_eq]
  constructor
  · intro same
    by_contra h
    have shorter := length_strip_lt h
    have := length_normalize_le (strip (remove t))
    rw [← remove_eq, same] at this
    omega
  · intro h
    rw [remove_eq (remove t), strip_of_bare h, remove_eq t, normalize_normalize]

def seams : List Char → List (Char × Char)
  | [] => []
  | c :: t =>
    match _h : behindComment? (c :: t) with
    | some rest => seams rest
    | none => (if (behindComment? t).isSome then (strip t).head?.toList.map (c, ·) else []) ++ seams t
termination_by t => t.length
decreasing_by
  · exact length_of_behindComment? _h
  · exact Nat.lt_succ_self t.length

theorem seams_of_some {t rest : List Char} (h : behindComment? t = some rest) :
    seams t = seams rest := by
  cases t with
  | nil => cases h
  | cons c t =>
    rw [seams]
    split <;> simp_all

theorem mem_seams_of_none {c : Char} {t : List Char} (h : behindComment? (c :: t) = none)
    {ab : Char × Char} : ab ∈ seams (c :: t) ↔
      ((behindComment? t).isSome ∧ ab.1 = c ∧ (strip t).head? = some ab.2) ∨ ab ∈ seams t := by
  obtain ⟨a, b⟩ := ab
  rw [seams]
  split
  · simp_all
  · rw [List.mem_append]
    refine or_congr_left ?_
    split
    · rename_i next
      simp [next, eq_comm, and_comm]
    · rename_i next
      simp [next]

/-- The two characters are neighbours in a mark. -/
def Fits (a b : Char) : Prop := ∃ mark ∈ marks, [a, b] <:+: mark.1 ∨ [a, b] <:+: mark.2

instance (a b : Char) : Decidable (Fits a b) :=
  inferInstanceAs (Decidable (∃ mark ∈ marks, _))

theorem split_of_strip {s x : List Char} (filled : s ≠ []) {c : Char} {t : List Char}
    (kept : behindComment? (c :: t) = none) (split : c :: strip t = s ++ x) :
    (∃ ab ∈ seams (c :: t), [ab.1, ab.2] <:+: s) ∨
      ∃ y, c :: t = s ++ y ∧ x = strip y ∧ seams y ⊆ seams (c :: t) := by
  induction s generalizing c t with
  | nil => exact absurd rfl filled
  | cons a s ih =>
    obtain ⟨rfl, hs⟩ := List.cons_eq_cons.1 split
    have deeper : seams t ⊆ seams (c :: t) := fun ab h => (mem_seams_of_none kept).2 (.inr h)
    cases s with
    | nil => exact .inr ⟨t, rfl, hs.symm, deeper⟩
    | cons b s =>
      cases next : behindComment? t with
      | some rest =>
        refine .inl ⟨(c, b), (mem_seams_of_none kept).2 (.inl ?_), (List.prefix_append [c, b] s).isInfix⟩
        simp [next, hs]
      | none =>
        cases t with
        | nil => simp at hs
        | cons d t =>
          rw [strip_of_none next] at hs
          rcases ih (List.cons_ne_nil b s) next hs with ⟨ab, seam, fits⟩ | ⟨y, hy, hx, inside⟩
          · exact .inl ⟨ab, deeper seam, List.infix_cons fits⟩
          · exact .inr ⟨y, by rw [hy]; rfl, hx, List.Subset.trans inside deeper⟩

theorem infix_of_strip {s : List Char} (filled : s ≠ []) {t : List Char} (h : s <:+: strip t) :
    (∃ ab ∈ seams t, [ab.1, ab.2] <:+: s) ∨ s <:+: t := by
  induction t using strip.induct with
  | case1 =>
    rw [strip_nil, List.infix_nil] at h
    exact absurd h filled
  | case2 c t rest found ih =>
    rw [strip_of_some found] at h
    rw [seams_of_some found]
    obtain ⟨w, split, -⟩ := behindComment?_eq_some_iff.1 found
    refine (ih h).imp_right fun occurs => occurs.trans ?_
    exact split ▸ (List.suffix_append w rest).isInfix
  | case3 c t kept ih =>
    rw [strip_of_none kept] at h
    rcases List.infix_cons_iff.1 h with ⟨x, hx⟩ | later
    · refine (split_of_strip filled kept hx.symm).imp_right ?_
      rintro ⟨y, hy, -, -⟩
      exact hy ▸ (List.prefix_append s y).isInfix
    · rcases ih later with ⟨ab, seam, fits⟩ | occurs
      · exact .inl ⟨ab, (mem_seams_of_none kept).2 (.inr seam), fits⟩
      · exact .inr (List.infix_cons occurs)

theorem exists_seam_of_not_bare {t : List Char} (h : ¬Bare (strip t)) :
    ∃ ab ∈ seams t, Fits ab.1 ab.2 := by
  induction t using strip.induct with
  | case1 =>
    rw [strip_nil] at h
    exact absurd bare_nil h
  | case2 c t rest found ih =>
    rw [strip_of_some found] at h
    rw [seams_of_some found]
    exact ih h
  | case3 c t kept ih =>
    rw [strip_of_none kept, bare_cons, not_and_or, ← ne_eq, Option.ne_none_iff_isSome] at h
    rcases h with here | later
    · obtain ⟨mark, listed, x, split, closed⟩ := isSome_behindComment?.1 here
      obtain ⟨filled, -, -⟩ := marks_words mark listed
      -- Either the opening mark lies over a seam, or it was there before, and then not closed.
      rcases split_of_strip filled kept split with ⟨ab, seam, fits⟩ | ⟨y, hy, rfl, inside⟩
      · exact ⟨ab, seam, mark, listed, .inl fits⟩
      · have open' : ¬mark.2 <:+: y := by
          intro closed
          have found := isSome_behindComment?.2 ⟨mark, listed, y, hy, closed⟩
          rw [kept] at found
          cases found
        have filled' : mark.2 ≠ [] := fun empty => open' (empty ▸ List.nil_infix)
        obtain ⟨ab, seam, fits⟩ := (infix_of_strip filled' closed).resolve_right open'
        exact ⟨ab, inside seam, mark, listed, .inr fits⟩
    · obtain ⟨ab, seam, fits⟩ := ih later
      exact ⟨ab, (mem_seams_of_none kept).2 (.inr seam), fits⟩

/-- Removing comments twice is removing them once, unless two halves of a mark come together where
comments are taken out; and it is just if no comment stands in what is left. -/
theorem remove_remove_of_apart (t : List Char) :
    ((∀ ab ∈ seams t, ¬Fits ab.1 ab.2) → remove (remove t) = remove t) ∧
    (remove (remove t) = remove t ↔ Bare (strip t)) := by
  refine ⟨fun apart => remove_remove.2 ?_, remove_remove⟩
  by_contra h
  obtain ⟨ab, seam, fits⟩ := exists_seam_of_not_bare h
  exact apart ab seam fits

theorem spaces_keep_halves_apart :
    let text := "/<!-- a --> * /* b */\n/ /* c // d".toList
    (∀ ab ∈ seams text, ¬Fits ab.1 ab.2) ∧ remove (remove text) = remove text := by
  intro text
  have apart : ∀ ab ∈ seams text, ¬Fits ab.1 ab.2 := by decide +kernel
  exact ⟨apart, (remove_remove_of_apart text).1 apart⟩

theorem halves_together :
    remove (remove "/<!-- a -->* b */".toList) ≠ remove "/<!-- a -->* b */".toList := by
  decide

end WcagAudit.Comment
