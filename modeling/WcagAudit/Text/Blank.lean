namespace WcagAudit

/-- The code points with the property White_Space, as closed ranges in order. -/
def blankRanges : List (Nat × Nat) :=
  [(0x9, 0xD), (0x20, 0x20), (0x85, 0x85), (0xA0, 0xA0), (0x1680, 0x1680), (0x2000, 0x200A),
    (0x2028, 0x2029), (0x202F, 0x202F), (0x205F, 0x205F), (0x3000, 0x3000)]

def isBlank (c : Char) : Bool :=
  blankRanges.any fun (low, high) => low ≤ c.toNat && c.toNat ≤ high

def trimStart (t : List Char) : List Char := t.dropWhile isBlank

def trimEnd (t : List Char) : List Char := (trimStart t.reverse).reverse

def trim (t : List Char) : List Char := trimEnd (trimStart t)

theorem trimStart_append {c : Char} (h : ¬isBlank c) (s t : List Char) :
    trimStart (s ++ c :: t) = trimStart s ++ c :: t := by
  simp only [trimStart, List.dropWhile_append, List.dropWhile_cons_of_neg h, List.isEmpty_iff]
  split
  · simp_all
  · rfl

theorem trim_concat {t : List Char} {c : Char} (h : ¬isBlank c) :
    trim (t ++ [c]) = trimStart t ++ [c] := by
  have last : trimStart (c :: (trimStart t).reverse) = c :: (trimStart t).reverse :=
    List.dropWhile_cons_of_neg h
  simp [trim, trimStart_append h t [], trimEnd, last]

theorem trimStart_eq_self {t : List Char} (h : ∀ c ∈ t.head?, ¬isBlank c) : trimStart t = t := by
  cases t with
  | nil => rfl
  | cons c t => exact List.dropWhile_cons_of_neg (h c rfl)

theorem trim_eq_self {t : List Char} (opens : ∀ c ∈ t.head?, ¬isBlank c)
    (ends : ∀ c ∈ t.getLast?, ¬isBlank c) : trim t = t := by
  have last : trimStart t.reverse = t.reverse := trimStart_eq_self (by rwa [List.head?_reverse])
  rw [trim, trimStart_eq_self opens, trimEnd, last, List.reverse_reverse]

theorem trimStart_blank {v : List Char} (h : v.all isBlank) (t : List Char) :
    trimStart (v ++ t) = trimStart t :=
  List.dropWhile_append_of_pos (List.all_eq_true.1 h)

theorem trim_between {v t w : List Char} (hv : v.all isBlank) (hw : w.all isBlank) (filled : t ≠ [])
    (opens : ∀ c ∈ t.head?, ¬isBlank c) (ends : ∀ c ∈ t.getLast?, ¬isBlank c) : trim (v ++ t ++ w) = t := by
  have start : trimStart (v ++ t ++ w) = t ++ w := by
    rw [List.append_assoc, trimStart_blank hv]
    refine trimStart_eq_self fun c hc => opens c ?_
    rwa [List.head?_append, Option.or_of_isSome (List.isSome_head?.2 filled)] at hc
  have last : trimStart (t ++ w).reverse = t.reverse := by
    rw [List.reverse_append, trimStart_blank (by rwa [List.all_reverse])]
    exact trimStart_eq_self (by rwa [List.head?_reverse])
  rw [trim, start, trimEnd, last, List.reverse_reverse]

theorem exists_trimStart (t : List Char) : ∃ v, v.all isBlank ∧ t = v ++ trimStart t :=
  ⟨t.takeWhile isBlank, List.all_takeWhile, List.takeWhile_append_dropWhile.symm⟩

theorem exists_trim (t : List Char) : ∃ v w, v.all isBlank ∧ w.all isBlank ∧ t = v ++ trim t ++ w := by
  obtain ⟨v, hv, start⟩ := exists_trimStart t
  obtain ⟨w, hw, last⟩ := exists_trimStart (trimStart t).reverse
  refine ⟨v, w.reverse, hv, by rwa [List.all_reverse], ?_⟩
  have whole : trimStart t = trim t ++ w.reverse := by
    rw [trim, trimEnd, ← List.reverse_append, ← last, List.reverse_reverse]
  rw [List.append_assoc, ← whole, ← start]

section

variable {α : Type} {cut : α → Bool}

def piecesBy (cut : α → Bool) (t : List α) : List (List α) :=
  t.foldr (fun c pieces =>
    if cut c then [] :: pieces
    else match pieces with
      | [] => [[c]]
      | piece :: rest => (c :: piece) :: rest) [[]]

theorem piecesBy_cons_pos {c : α} (h : cut c) (t : List α) :
    piecesBy cut (c :: t) = [] :: piecesBy cut t := by
  simp [piecesBy, h]

theorem piecesBy_cons_neg {c : α} {t piece : List α} {pieces : List (List α)} (h : ¬cut c)
    (ht : piecesBy cut t = piece :: pieces) : piecesBy cut (c :: t) = (c :: piece) :: pieces := by
  simp only [piecesBy] at ht
  simp [piecesBy, h, ht]

theorem piecesBy_ne_nil (t : List α) : piecesBy cut t ≠ [] := by
  cases t with
  | nil => exact List.cons_ne_nil _ _
  | cons c t =>
    simp only [piecesBy, List.foldr_cons]
    split
    · exact List.cons_ne_nil _ _
    · split <;> exact List.cons_ne_nil _ _

theorem eq_nil_of_piecesBy {t : List α} (h : piecesBy cut t = [[]]) : t = [] := by
  cases t with
  | nil => rfl
  | cons c t =>
    obtain ⟨piece, pieces, ht⟩ :=
      List.exists_cons_of_ne_nil (piecesBy_ne_nil t : piecesBy cut t ≠ [])
    by_cases hc : cut c
    · rw [piecesBy_cons_pos hc, ht] at h
      cases h
    · rw [piecesBy_cons_neg hc ht] at h
      cases h

theorem mem_of_mem_piecesBy {t piece : List α} (h : piece ∈ piecesBy cut t) :
    ∀ c ∈ piece, c ∈ t ∧ ¬cut c := by
  induction t generalizing piece with
  | nil => simp_all [piecesBy]
  | cons d t ih =>
    intro c hc
    by_cases hd : cut d
    · rw [piecesBy_cons_pos hd] at h
      cases h with
      | head => cases hc
      | tail _ h => exact (ih h c hc).imp_left (List.mem_cons_of_mem d)
    · obtain ⟨first, pieces, ht⟩ := List.exists_cons_of_ne_nil (piecesBy_ne_nil t)
      rw [piecesBy_cons_neg hd ht] at h
      cases h with
      | head =>
        cases hc with
        | head => exact ⟨List.mem_cons_self, hd⟩
        | tail _ hc =>
          exact (ih (ht ▸ List.mem_cons_self) c hc).imp_left (List.mem_cons_of_mem d)
      | tail _ h =>
        exact (ih (ht ▸ List.mem_cons_of_mem first h) c hc).imp_left (List.mem_cons_of_mem d)

theorem piecesBy_append {c : α} (h : cut c) (s t : List α) :
    piecesBy cut (s ++ c :: t) = piecesBy cut s ++ piecesBy cut t := by
  induction s with
  | nil => exact piecesBy_cons_pos h t
  | cons d s ih =>
    by_cases hd : cut d
    · rw [List.cons_append, piecesBy_cons_pos hd, piecesBy_cons_pos hd, ih, List.cons_append]
    · obtain ⟨piece, pieces, hs⟩ := List.exists_cons_of_ne_nil (piecesBy_ne_nil s)
      rw [hs, List.cons_append] at ih
      rw [List.cons_append, piecesBy_cons_neg hd ih, piecesBy_cons_neg hd hs, List.cons_append]

theorem piecesBy_of_forall_not {t : List α} (h : ∀ c ∈ t, ¬cut c) : piecesBy cut t = [t] := by
  induction t with
  | nil => rfl
  | cons c t ih =>
    obtain ⟨first, later⟩ := List.forall_mem_cons.1 h
    exact piecesBy_cons_neg first (ih later)

end

def words (t : List Char) : List (List Char) := (piecesBy isBlank t).filter (!·.isEmpty)

def normalize (t : List Char) : List Char := [' '].intercalate (words t)

end WcagAudit
