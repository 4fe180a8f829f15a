import WcagAudit.Proofs.Pattern.Search
import WcagAudit.Proofs.Text.Digits
import WcagAudit.Proofs.Text.LetterCase
import WcagAudit.Rule.Vocabulary

namespace WcagAudit

def leadingQuote : List Char → List Char
  | c :: _ => if Pattern.isQuote c then [c] else []
  | [] => []

def afterQuote (t : List Char) : List Char := t.drop (leadingQuote t).length

theorem isQuote_of_mem_leadingQuote {t : List Char} {c : Char} (h : c ∈ leadingQuote t) :
    Pattern.isQuote c := by
  cases t with
  | nil => cases h
  | cons d t => by_cases hd : Pattern.isQuote d <;> simp_all [leadingQuote]

theorem length_leadingQuote_le (t : List Char) : (leadingQuote t).length ≤ 1 := by
  cases t with
  | nil => exact Nat.zero_le 1
  | cons c t => by_cases h : Pattern.isQuote c <;> simp [leadingQuote, h]

theorem leadingQuote_append_afterQuote (t : List Char) : leadingQuote t ++ afterQuote t = t := by
  cases t with
  | nil => rfl
  | cons c t => by_cases h : Pattern.isQuote c <;> simp [leadingQuote, afterQuote, h]

theorem afterQuote_cons {q : Char} (hq : Pattern.isQuote q) (t : List Char) : afterQuote (q :: t) = t := by
  simp [afterQuote, leadingQuote, hq]

theorem afterQuote_of_not {c : Char} (hc : ¬Pattern.isQuote c) (t : List Char) :
    afterQuote (c :: t) = c :: t := by
  simp [afterQuote, leadingQuote, hc]

namespace Pattern

variable {α : Type _}

theorem isQuote_foldLetter (c : Char) : isQuote (foldLetter c) = isQuote c := by
  rw [Bool.eq_iff_iff]
  simp only [isQuote, Bool.or_eq_true, beq_iff_eq,
    foldLetter_eq_iff_of_not_alpha (d := '"') (by decide) rfl,
    foldLetter_eq_iff_of_not_alpha (d := '\x27') (by decide) rfl]

theorem unquoted_of_map_foldLetter {w s : List Char} (h : w.map foldLetter = s.map foldLetter)
    (hs : s.all (!isQuote ·)) : ∀ c ∈ w, !isQuote c := by
  intro c hc
  have folded : foldLetter c ∈ s.map foldLetter := h ▸ List.mem_map_of_mem hc
  obtain ⟨d, hd, same⟩ := List.mem_map.1 folded
  rw [← isQuote_foldLetter, ← same, isQuote_foldLetter]
  exact List.all_eq_true.1 hs d hd

section

variable {x : List Char} {q : Char} (hx : x.all (!isQuote ·)) (hq : isQuote q)

include hx hq

theorem takeWhile_unquoted (t : List Char) : (x ++ q :: t).takeWhile (!isQuote ·) = x :=
  takeWhile_run (by simpa using hx) (by simp [hq])

theorem dropWhile_unquoted (t : List Char) : (x ++ q :: t).dropWhile (!isQuote ·) = q :: t :=
  dropWhile_run (by simpa using hx) (by simp [hq])

end

theorem reads_optional_quote {t u : Trail} :
    (optional quote).Reads t u ↔ ∃ mark rest, t.rest = mark ++ rest ∧
      mark ∈ [[], ['"'], ['\x27']] ∧ u = t.past mark rest := by
  constructor
  · rintro (⟨c, rest, hrest, hc, rfl⟩ | rfl)
    · exact ⟨[c], rest, hrest, by simpa [isQuote] using hc, rfl⟩
    · exact ⟨[], _, rfl, .head _, rfl⟩
  · rintro ⟨mark, rest, hrest, hmark, rfl⟩
    simp only [List.mem_cons, List.not_mem_nil, or_false] at hmark
    rcases hmark with rfl | rfl | rfl
    · exact .inr (Trail.past_nil hrest)
    · exact .inl ⟨_, rest, hrest, rfl, rfl⟩
    · exact .inl ⟨_, rest, hrest, rfl, rfl⟩

theorem run_optional_quote_of_some {t : Trail} {k : Trail → Option α} {r : α}
    (h : k (t.past (leadingQuote t.rest) (afterQuote t.rest)) = some r) :
    (optional quote).run t k = some r := by
  cases ht : t.rest with
  | nil =>
    rw [ht] at h
    simpa [run, quote, ht] using (Trail.past_nil ht ▸ h : k t = some r)
  | cons c cs =>
    rw [ht] at h
    by_cases hc : isQuote c
    · simp only [leadingQuote, afterQuote, if_pos hc] at h
      simp [run, quote, ht, hc, show k (t.advance c cs) = some r from h]
    · simp only [leadingQuote, afterQuote, if_neg hc, List.length_nil, List.drop_zero] at h
      rw [Trail.past_nil ht] at h
      simp [run, quote, ht, hc, h]

def Spells (p : Pattern) (words : List (List Char)) : Prop :=
  ∀ t u, p.Reads t u ↔ ∃ x rest, t.rest = x ++ rest ∧ x.map foldLetter ∈ words ∧ u = t.past x rest

theorem spells_ignoringCase (s : String) : (ignoringCase s).Spells [s.toList.map foldLetter] := by
  intro t u
  simp only [reads_ignoringCase, List.mem_singleton]

theorem spells_one {accepts : Char → Bool} (letters : List Char)
    (h : ∀ c, accepts c ↔ foldLetter c ∈ letters) : (one accepts).Spells (letters.map ([·])) := by
  intro t u
  simp only [List.mem_map]
  constructor
  · rintro ⟨c, rest, hc, accepted, rfl⟩
    exact ⟨[c], rest, hc, ⟨_, (h c).1 accepted, rfl⟩, rfl⟩
  · rintro ⟨x, rest, hx, ⟨d, listed, spelled⟩, rfl⟩
    obtain ⟨c, rfl, folds⟩ := List.map_eq_singleton_iff.1 spelled.symm
    exact ⟨c, rest, hx, (h c).2 (folds ▸ listed), rfl⟩

theorem spells_equals : (char '=').Spells [['=']] :=
  spells_one ['='] fun c => by
    rw [List.mem_singleton, foldLetter_eq_iff_of_not_alpha (by decide) rfl, beq_iff_eq]

theorem spells_quote : quote.Spells [['"'], ['\x27']] :=
  spells_one ['"', '\x27'] fun c => by
    rw [← isQuote_foldLetter, isQuote, Bool.or_eq_true, beq_iff_eq, beq_iff_eq, List.mem_pair]

variable {p q : Pattern} {words others : List (List Char)}

theorem Spells.optional (hp : p.Spells words) : (optional p).Spells ([] :: words) := by
  intro t u
  simp only [Reads, hp t u, List.mem_cons]
  constructor
  · rintro (⟨x, rest, hx, spelled, rfl⟩ | rfl)
    · exact ⟨x, rest, hx, .inr spelled, rfl⟩
    · exact ⟨[], _, rfl, .inl rfl, rfl⟩
  · rintro ⟨x, rest, hx, empty | spelled, rfl⟩
    · obtain rfl := List.map_eq_nil_iff.1 empty
      exact .inr (Trail.past_nil hx)
    · exact .inl ⟨x, rest, hx, spelled, rfl⟩

theorem Spells.append (hp : p.Spells words) (hq : q.Spells others) :
    (p ++ q).Spells (words.flatMap fun x => others.map (x ++ ·)) := by
  intro t u
  simp only [reads_append, List.mem_flatMap, List.mem_map]
  constructor
  · rintro ⟨v, hv, hu⟩
    obtain ⟨x, _, hx, sx, rfl⟩ := (hp t v).1 hv
    obtain ⟨y, rest, rfl, sy, rfl⟩ := (hq _ u).1 hu
    refine ⟨x ++ y, rest, by rw [hx, List.append_assoc], ⟨_, sx, _, sy, ?_⟩, Trail.past_past ..⟩
    rw [List.map_append]
  · rintro ⟨z, rest, hz, ⟨word, hword, other, hother, spelled⟩, rfl⟩
    obtain ⟨x, y, rfl, rfl, rfl⟩ := List.map_eq_append_iff.1 spelled.symm
    refine ⟨t.past x (y ++ rest), (hp _ _).2 ⟨x, y ++ rest, by simp [hz], hword, rfl⟩, ?_⟩
    exact (hq _ _).2 ⟨y, rest, rfl, hother, (Trail.past_past ..).symm⟩

end Pattern
end WcagAudit
