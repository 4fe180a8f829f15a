import WcagAudit.Proofs.Pattern.TagScan

namespace WcagAudit

section

variable {qualifies : List Char → Prop} [DecidablePred qualifies]

theorem takenTags_cons_of_ne {c : Char} (h : c ≠ '<') (cs : List Char) :
    takenTags qualifies (c :: cs) = takenTags qualifies cs := by
  rw [takenTags, if_neg fun taken => h taken.1]

theorem takenTags_tag {w : List Char} (rest : List Char) (hw : '>' ∉ w) :
    takenTags qualifies ('<' :: w ++ '>' :: rest) =
      if qualifies w then w :: takenTags qualifies rest
      else takenTags qualifies (w ++ '>' :: rest) := by
  rw [List.cons_append, takenTags, takeWhile_tag rest hw, drop_tag]
  simp

theorem takenTags_pass {w : List Char} (rest : List Char) (hw : '>' ∉ w)
    (none : ∀ s, '<' :: s <:+ w → ¬qualifies s) :
    takenTags qualifies (w ++ '>' :: rest) = takenTags qualifies rest := by
  induction w with
  | nil => exact takenTags_cons_of_ne (by decide) rest
  | cons c w ih =>
    rw [List.mem_cons, not_or] at hw
    have later := ih hw.2 fun s hs => none s (hs.trans (List.suffix_cons c w))
    by_cases hc : c = '<'
    · -- The tag that this bracket opens ends where the whole does.
      subst hc
      rw [takenTags_tag rest hw.2, if_neg (none w List.suffix_rfl), later]
    · rw [List.cons_append, takenTags_cons_of_ne hc, later]

theorem takenTags_tagText {s : List Char} (opened : '<' ∉ s) (closed : '>' ∉ s) :
    takenTags qualifies (tagText s) = if qualifies s then [s] else [] := by
  have nil : takenTags qualifies [] = [] := by rw [takenTags]
  rw [tagText, takenTags_tag [] closed, takenTags_pass [] closed, nil]
  exact fun w hw => absurd (hw.mem List.mem_cons_self) opened

theorem takenTags_of_not_mem {t : List Char} (h : '>' ∉ t) : takenTags qualifies t = [] := by
  induction t with
  | nil => rw [takenTags]
  | cons c t ih =>
    rw [List.mem_cons, not_or] at h
    rw [takenTags, if_neg fun taken => h.2 taken.2.1]
    exact ih h.2

/-- To ask for more than a scan does is to choose among the tags that it takes, if a tag has what is
asked for as soon as one inside it has. -/
theorem takenTags_and {asked : List Char → Prop} [DecidablePred asked]
    (outer : ∀ s s', '<' :: s' <:+ s → qualifies s → qualifies s' → asked s' → asked s)
    (t : List Char) :
    takenTags (fun s => qualifies s ∧ asked s) t = (takenTags qualifies t).filter asked := by
  -- A tag that is taken is left behind at once, so the induction is on the length.
  induction hn : t.length using Nat.strongRecOn generalizing t with
  | ind n ih =>
    subst hn
    have later {t' : List Char} (shorter : t'.length < t.length) := ih _ shorter t' rfl
    cases t with
    | nil => simp [takenTags]
    | cons c cs =>
      by_cases hc : c = '<' ∧ '>' ∈ cs
      · obtain ⟨rfl, closed⟩ := hc
        obtain ⟨w, rest, rfl, hw⟩ := List.eq_append_cons_of_mem closed
        have whole : '<' :: (w ++ '>' :: rest) = '<' :: w ++ '>' :: rest := rfl
        have shorter : rest.length < ('<' :: (w ++ '>' :: rest)).length := by
          simp only [List.length_cons, List.length_append]
          omega
        have behind := later shorter
        rw [whole, takenTags_tag rest hw, takenTags_tag rest hw]
        by_cases named : qualifies w
        · by_cases has : asked w
          · rw [if_pos ⟨named, has⟩, if_pos named, behind, List.filter_cons_of_pos (by simpa)]
          · -- The tags inside this one do not have it either.
            rw [if_neg fun h => has h.2, if_pos named, List.filter_cons_of_neg (by simpa), ← behind]
            exact takenTags_pass rest hw fun s hs h => has (outer w s hs named h.1 h.2)
        · rw [if_neg fun h => named h.1, if_neg named]
          exact later (by simp)
      · have passed (q : List Char → Prop) [DecidablePred q] :
            takenTags q (c :: cs) = takenTags q cs := by
          rw [takenTags, if_neg fun taken => hc ⟨taken.1, taken.2.1⟩]
        rw [passed, passed]
        exact later (Nat.lt_succ_self _)

end

structure IsWord (name : String) : Prop extends IsName name where
  letters : ∀ c ∈ name.toList, c.isAlpha

instance : DecidablePred IsWord := fun name =>
  decidable_of_iff (IsName name ∧ name.toList.all Char.isAlpha)
    ⟨fun ⟨isName, letters⟩ => ⟨isName, List.all_eq_true.1 letters⟩,
      fun h => ⟨h.toIsName, List.all_eq_true.2 h.letters⟩⟩

theorem IsWord.filled {name : String} (word : IsWord name) : name.toList ≠ [] := by
  intro empty
  have last := word.last
  rw [empty] at last
  cases last

theorem IsWord.named {name : String} (word : IsWord name) (s : List Char) :
    Named name (name.toList ++ ' ' :: s) := by
  constructor
  · rw [List.map_append, word.small]
    exact List.prefix_append ..
  · rw [← String.length_toList, List.drop_left]
    change ¬isWordChar ' '
    decide

theorem Named.length_le {name name' : String} {s : List Char} (h : Named name s)
    (h' : Named name' s) (letters : ∀ c ∈ name'.toList, c.isAlpha) : name'.length ≤ name.length := by
  by_contra longer
  rw [Nat.not_le, ← name'.length_toList] at longer
  obtain ⟨z, hz⟩ := h'.1
  have behind : (s.drop name.length).map foldLetter = name'.toList.drop name.length ++ z := by
    rw [List.map_drop, ← hz, List.drop_append_of_le_length]
    exact Nat.le_of_lt longer
  obtain ⟨d, rest, split⟩ := List.exists_cons_of_ne_nil
    (mt List.drop_eq_nil_iff.1 (Nat.not_le.2 longer))
  rw [split] at behind
  obtain ⟨c, cs, hs, folds, -⟩ := List.map_eq_cons_iff.1 behind
  have letter : (foldLetter c).isAlpha := by
    rw [folds]
    exact letters d (List.mem_of_mem_drop (split ▸ List.mem_cons_self))
  exact h.2 (by simpa [hs] using isWordChar_of_foldLetter letter)

theorem Named.length_eq {name name' : String} {s : List Char} (h : Named name s)
    (h' : Named name' s) (word : IsWord name) (word' : IsWord name') : name.length = name'.length :=
  Nat.le_antisymm (h'.length_le h word.letters) (h.length_le h' word'.letters)

def NamedAmong (names : List String) (s : List Char) : Prop := ∃ name ∈ names, Named name s

instance (names : List String) : DecidablePred (NamedAmong names) := fun s => by
  unfold NamedAmong
  infer_instance

namespace Pattern

variable {a : Pattern} {w : List Char}

theorem exists_of_inTag?_part (ha : a.staysBefore '>') (hw : '>' ∉ w) {m : Match}
    (h : (a ++ part muchOfTag).inTag? w = some m) :
    ∃ u v, a.Reads ⟨1, '<', w ++ ['>'], []⟩ u ∧ u.rest = v ++ ['>'] ∧
      m = ⟨tagText w, u.parts.map Span.text ++ [v]⟩ := by
  obtain ⟨_, reads, hm⟩ := reads_of_run h
  obtain ⟨u, hu, _, further, rfl⟩ := reads_append.1 reads
  obtain ⟨v, hv, outside⟩ := hu.inside ha rfl hw
  obtain ⟨x, y, rfl, rfl⟩ := (skimsTag_muchOfTag.reads_iff hv outside).1 further
  refine ⟨u, x, hu, ?_⟩
  -- The closing bracket is read at once, so nothing of the tag is left.
  cases y with
  | nil => exact ⟨by simpa using hv, by simpa [run, char, Span.text, hv, tagText] using hm.symm⟩
  | cons c y =>
    have other : c ≠ '>' := fun same => outside (by simp [same])
    simp [run, char, other] at hm

theorem isSome_inTag?_part_iff (ha : a.staysBefore '>') (hw : '>' ∉ w) :
    ((a ++ part muchOfTag).inTag? w).isSome ↔ ∃ u, a.Reads ⟨1, '<', w ++ ['>'], []⟩ u := by
  constructor
  · intro found
    obtain ⟨m, hm⟩ := Option.isSome_iff_exists.1 found
    obtain ⟨u, -, hu, -⟩ := exists_of_inTag?_part ha hw hm
    exact ⟨u, hu⟩
  · rintro ⟨u, hu⟩
    obtain ⟨v, hv, outside⟩ := hu.inside ha rfl hw
    have closing : (part muchOfTag).Reads u ((u.past v ['>']).capture u) :=
      ⟨_, skimsTag_muchOfTag.reads_all hv outside, rfl⟩
    exact isSome_run (reads_append.2 ⟨u, hu, closing⟩) (by simp [run, char])

variable {names : List String} (words : ∀ name ∈ names, IsWord name)

include words

theorem isSome_inTag?_named_iff (ha : (anyName names ++ boundary).staysBefore '>') (hw : '>' ∉ w) :
    ((anyName names ++ boundary ++ part muchOfTag).inTag? w).isSome ↔ NamedAmong names w := by
  rw [isSome_inTag?_part_iff ha hw, exists_reads_anyName_append]
  exact exists_congr fun name => and_congr_right fun listed =>
    exists_reads_named (words name listed).toIsName rfl

theorem inTag?_named (ha : (anyName names ++ boundary).staysBefore '>') (hw : '>' ∉ w)
    {name : String} (listed : name ∈ names) (named : Named name w) :
    (anyName names ++ boundary ++ part muchOfTag).inTag? w =
      some ⟨tagText w, [w.drop name.length]⟩ := by
  obtain ⟨m, hm⟩ := Option.isSome_iff_exists.1
    ((isSome_inTag?_named_iff words ha hw).2 ⟨name, listed, named⟩)
  obtain ⟨u, v, reads, hv, rfl⟩ := exists_of_inTag?_part ha hw hm
  obtain ⟨_, names, edge, rfl⟩ := reads_append.1 reads
  rw [anyName, reads_firstOf] at names
  obtain ⟨_, among, spelled⟩ := names
  obtain ⟨other, listed', rfl⟩ := List.mem_map.1 among
  have named' : Named other w := (exists_reads_named (words other listed').toIsName rfl).1
    ⟨u, reads_append.2 ⟨u, spelled, edge, rfl⟩⟩
  obtain ⟨x, rest, hx, folds, rfl⟩ := reads_ignoringCase.1 spelled
  simp only [Trail.rest_past] at hv
  subst hv
  -- Whichever name the search has read, it is as long as this one.
  have size : x.length = name.length := by
    rw [named.length_eq named' (words name listed) (words other listed')]
    simpa only [List.length_map, String.length_toList] using congrArg List.length folds
  have split : w = x ++ v := List.append_cancel_right (hx.trans (List.append_assoc x v ['>']).symm)
  rw [hm, ← size, split, List.drop_left]
  rfl

theorem map_matchesIn_tagNamed
    (tag : IsTag (tagNamed names) (anyName names ++ boundary ++ part muchOfTag))
    (ha : (anyName names ++ boundary).staysBefore '>') {β : Type _} {f : Match → β}
    {g : List Char → β} (same : ∀ name ∈ names, ∀ s, Named name s →
      f ⟨tagText s, [s.drop name.length]⟩ = g s) (t : List Char) :
    ((tagNamed names).matchesIn t).map f = (takenTags (NamedAmong names) t).map g := by
  rw [matchesIn_eq_takenTags tag (fun _ hw => isSome_inTag?_named_iff words ha hw),
    List.map_filterMap, ← List.filterMap_eq_map]
  refine List.filterMap_congr fun s hs => ?_
  obtain ⟨hw, name, listed, named⟩ := mem_takenTags hs
  rw [inTag?_named words ha hw listed named, Option.map_some, same name listed s named,
    Function.comp_apply]

end Pattern
end WcagAudit
