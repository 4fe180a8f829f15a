import Mathlib.Data.List.Basic
import WcagAudit.Proofs.Text.Spacing

namespace WcagAudit

/-- White space in the text is spaces, each strictly between two characters that are none. -/
def SinglySpaced (t : List Char) : Prop :=
  ∀ u c v, t = u ++ c :: v → isBlank c →
    c = ' ' ∧ (∃ d ∈ u.getLast?, ¬isBlank d) ∧ ∃ d ∈ v.head?, ¬isBlank d

theorem SinglySpaced.head {c : Char} {t : List Char} (h : SinglySpaced (c :: t)) : ¬isBlank c := by
  intro blank
  obtain ⟨-, ⟨d, last, -⟩, -⟩ := h [] c t rfl blank
  cases last

theorem SinglySpaced.drop {u t : List Char} (h : SinglySpaced (u ++ t))
    (opens : ∀ c ∈ t.head?, ¬isBlank c) : SinglySpaced t := by
  intro v c w split blank
  have here := h (u ++ v) c w (by rw [split, List.append_assoc]) blank
  cases v with
  | nil => exact absurd blank (opens c (by rw [split]; rfl))
  | cons e v => rwa [List.getLast?_append_cons] at here

theorem Spaced.singlySpaced {t : List Char} (h : Spaced t) : SinglySpaced t := by
  induction h with
  | nil =>
    intro u c v split
    cases u <;> cases split
  | @letter d t hd _ ih =>
    rintro (_ | ⟨e, u⟩) c v split blank
    · cases split
      exact absurd blank hd
    · cases split
      obtain ⟨space, ⟨b, last, hb⟩, next⟩ := ih u c v rfl blank
      exact ⟨space, ⟨b, List.mem_getLast?_cons last, hb⟩, next⟩
  | @space d t hd ht filled ih =>
    obtain ⟨e, t, rfl⟩ := List.exists_cons_of_ne_nil filled
    rintro (_ | ⟨_, _ | ⟨_, u⟩⟩) c v split blank
    · cases split
      exact absurd blank hd
    · cases split
      exact ⟨rfl, ⟨d, rfl, hd⟩, e, rfl, ht.head⟩
    · have rest := (List.cons_eq_cons.1 (List.cons_eq_cons.1 split).2).2
      obtain ⟨space, ⟨b, last, hb⟩, next⟩ := ih u c v rest blank
      exact ⟨space, ⟨b, List.mem_getLast?_cons (List.mem_getLast?_cons last), hb⟩, next⟩

theorem SinglySpaced.spaced : ∀ {t : List Char}, SinglySpaced t → Spaced t
  | [], _ => .nil
  | [_], h => .letter h.head .nil
  | c :: d :: t, h => by
    by_cases hd : isBlank d
    · obtain ⟨rfl, -, e, first, he⟩ := h [c] d t rfl hd
      have opens : ∀ c ∈ t.head?, ¬isBlank c := by
        rintro c next
        cases Option.some.inj (first.symm.trans next)
        exact he
      have later : SinglySpaced t := h.drop (u := [c, ' ']) opens
      exact .space h.head later.spaced (by rintro rfl; cases first)
    · have later : SinglySpaced (d :: t) := h.drop (u := [c]) (by simpa using hd)
      exact .letter h.head later.spaced

theorem words_append_blank {c : Char} (h : isBlank c) (s t : List Char) :
    words (s ++ c :: t) = words s ++ words t := by
  simp only [words, piecesBy_append h, List.filter_append]

theorem words_blank_append {v : List Char} (h : v.all isBlank) (t : List Char) :
    words (v ++ t) = words t := by
  induction v with
  | nil => rfl
  | cons c v ih =>
    obtain ⟨first, later⟩ := List.forall_mem_cons.1 (List.all_eq_true.1 h)
    rw [List.cons_append, words_cons_blank first, ih (List.all_eq_true.2 later)]

theorem words_of_word {w : List Char} (hw : Word w) (filled : w ≠ []) : words w = [w] := by
  simp [words, piecesBy_of_forall_not hw, filled]

theorem word_of_mem_words {t w : List Char} (h : w ∈ words t) : w ≠ [] ∧ Word w := by
  obtain ⟨piece, filled⟩ := List.mem_filter.1 h
  exact ⟨by simpa using filled, fun c hc => (mem_of_mem_piecesBy piece c hc).2⟩

theorem words_intercalate {ws : List (List Char)} (h : ∀ w ∈ ws, w ≠ [] ∧ Word w) :
    words ([' '].intercalate ws) = ws := by
  induction ws with
  | nil => rfl
  | cons w ws ih =>
    obtain ⟨⟨filled, word⟩, later⟩ := List.forall_mem_cons.1 h
    cases ws with
    | nil => rw [List.intercalate_singleton, words_of_word word filled]
    | cons v vs =>
      rw [List.intercalate_cons_cons, List.append_assoc, List.singleton_append,
        words_append_blank isBlank_space, words_of_word word filled, ih later, List.singleton_append]

theorem words_normalize (t : List Char) : words (normalize t) = words t :=
  words_intercalate fun _ => word_of_mem_words

theorem normalize_eq_iff {s t : List Char} : normalize s = normalize t ↔ words s = words t := by
  constructor
  · intro h
    rw [← words_normalize s, h, words_normalize]
  · intro h
    rw [normalize, h, ← normalize]

theorem eq_normalize_of_spaced {s t : List Char} (h : Spaced s) (same : words s = words t) :
    s = normalize t := by
  rw [← normalize_of_spaced h, normalize_eq_iff, same]

theorem normalize_gap {w : List Char} (filled : w ≠ []) (blank : w.all isBlank) (a b : List Char) :
    normalize (a ++ w ++ b) = normalize (normalize a ++ [' '] ++ normalize b) := by
  obtain ⟨c, w, rfl⟩ := List.exists_cons_of_ne_nil filled
  obtain ⟨first, later⟩ := List.forall_mem_cons.1 (List.all_eq_true.1 blank)
  rw [normalize_eq_iff, List.append_assoc, List.append_assoc, List.cons_append, List.cons_append,
    words_append_blank first, words_append_blank isBlank_space,
    words_blank_append (List.all_eq_true.2 later), List.nil_append, words_normalize, words_normalize]

/-- The normal form is singly spaced and has the words of the text, and nothing else is and has. -/
theorem normalize_canonical (t : List Char) :
    SinglySpaced (normalize t) ∧ words (normalize t) = words t ∧
    (∀ s, SinglySpaced s → words s = words t → s = normalize t) ∧
    normalize (normalize t) = normalize t ∧
    (∀ s, normalize s = normalize t ↔ words s = words t) ∧
    ∀ a w b, w ≠ [] → w.all isBlank →
      normalize (a ++ w ++ b) = normalize (normalize a ++ [' '] ++ normalize b) :=
  ⟨(spaced_normalize t).singlySpaced, words_normalize t,
    fun _ spaced => eq_normalize_of_spaced spaced.spaced, normalize_normalize t,
    fun _ => normalize_eq_iff, fun a _ b filled blank => normalize_gap filled blank a b⟩

theorem wide_gaps_canonical :
    let text := "\u00a0ab\t\u2003 c\r\n".toList
    SinglySpaced "ab c".toList ∧ words "ab c".toList = words text ∧ "ab c".toList = normalize text ∧
      "\u2003 ".toList ≠ [] ∧ "\u2003 ".toList.all isBlank ∧
      normalize ("\u00a0ab\t".toList ++ "\u2003 ".toList ++ "c\r\n".toList) =
        normalize (normalize "\u00a0ab\t".toList ++ [' '] ++ normalize "c\r\n".toList) := by
  intro text
  have spaced : Spaced "ab c".toList :=
    .letter (by decide) (.space (by decide) (.letter (by decide) .nil) (by decide))
  have same : words "ab c".toList = words text := by decide
  obtain ⟨-, -, only, -, -, gap⟩ := normalize_canonical text
  exact ⟨spaced.singlySpaced, same, only _ spaced.singlySpaced same, by decide, by decide,
    gap _ _ _ (by decide) (by decide)⟩

end WcagAudit
