import WcagAudit.Proofs.Comment.Strip
import WcagAudit.Proofs.Rule.Elements
import WcagAudit.Proofs.Rule.Images
import WcagAudit.Proofs.Rule.Interactive
import WcagAudit.Proofs.Text.Occurrence

namespace WcagAudit

/-- What stands behind the first word of a tag, in its normal form. -/
def respaced (r : List Char) : List Char :=
  gapBefore (r ++ ['>']) ++ (normalize (r ++ ['>'])).dropLast

theorem normalize_append_bracket (r : List Char) :
    ∃ gap : List Char, (∀ c ∈ gap, c = ' ') ∧ normalize (r ++ ['>']) = normalize r ++ gap ++ ['>'] :=
  normalize_append r ['>']

theorem respaced_append_bracket (r : List Char) :
    respaced r ++ ['>'] = gapBefore (r ++ ['>']) ++ normalize (r ++ ['>']) := by
  obtain ⟨gap, -, joined⟩ := normalize_append_bracket r
  rw [respaced, joined, List.dropLast_concat, List.append_assoc]

theorem normalize_tagText {n : List Char} (hn : Word n) (r : List Char) :
    normalize (tagText (n ++ r)) = tagText (n ++ respaced r) := by
  have word : Word ('<' :: n) := List.forall_mem_cons.2 ⟨by decide, hn⟩
  have split (r : List Char) : tagText (n ++ r) = '<' :: n ++ (r ++ ['>']) := by simp [tagText]
  rw [split, split, normalize_append_word word (List.cons_ne_nil _ _), respaced_append_bracket]

theorem mem_of_mem_respaced {c : Char} (hc : ¬isBlank c) {r : List Char} (h : c ∈ respaced r) :
    c ∈ r := by
  have other {gap : List Char} (spaces : ∀ d ∈ gap, d = ' ') : c ∉ gap := fun inside =>
    hc (spaces c inside ▸ isBlank_space)
  obtain ⟨gap, spaces, joined⟩ := normalize_append_bracket r
  rw [respaced, joined, List.dropLast_concat, List.mem_append, List.mem_append, mem_normalize hc] at h
  rcases h with space | inside | space
  · exact absurd space (other fun _ => eq_space_of_mem_gapBefore)
  · exact inside
  · exact absurd space (other spaces)

theorem not_mem_append_respaced {c : Char} (hc : ¬isBlank c) {n r : List Char} (h : c ∉ n ++ r) :
    c ∉ n ++ respaced r := by
  rw [List.mem_append, not_or] at h ⊢
  exact ⟨h.1, mt (mem_of_mem_respaced hc) h.2⟩

theorem respaced_space (r : List Char) :
    respaced (' ' :: r) = ' ' :: (normalize (r ++ ['>'])).dropLast := by
  have filled : normalize (r ++ ['>']) ≠ [] := by
    refine List.ne_nil_of_mem (a := '>') ((mem_normalize (by decide)).2 ?_)
    simp
  rw [respaced, List.cons_append, gapBefore_of_blank isBlank_space filled,
    normalize_cons_blank isBlank_space]
  rfl

theorem head_respaced {r : List Char} (apart : ∀ c ∈ r.head?, c = ' ') :
    ∀ c ∈ (respaced r).head?, c = ' ' := by
  cases r with
  | nil => exact nofun
  | cons d r =>
    obtain rfl : d = ' ' := apart d rfl
    rw [respaced_space]
    simp

theorem infix_fold_respaced {word x r : List Char} (hword : Word word) (inside : '>' ∉ word)
    (hx : Word x) (filled : x ≠ []) :
    word <:+: (x ++ respaced r).map foldLetter ↔ word <:+: (x ++ r).map foldLetter := by
  have closed (y : List Char) :
      word <:+: (x ++ y).map foldLetter ↔ word <:+: (x ++ (y ++ ['>'])).map foldLetter := by
    have bracket : (x ++ (y ++ ['>'])).map foldLetter = (x ++ y).map foldLetter ++ ['>'] := by
      simp [show foldLetter '>' = '>' from rfl]
    rw [bracket, infix_concat_iff inside]
  rw [closed, closed r, respaced_append_bracket, ← normalize_append_word hx filled,
    infix_fold_normalize hword]

/-- A tag as a reader of the text knows it: a name of letters, digits and hyphens, and behind a space what
else is in it, without brackets and marks of comments. -/
structure PlainTag where
  name : List Char
  rest : List Char
  filled : name ≠ [] := by decide
  letters : name.all fun c => c.isAlphanum || c == '-' := by decide
  apart : rest.head?.all (· == ' ') := by decide
  opened : '<' ∉ rest := by decide
  closed : '>' ∉ rest := by decide
  block : ¬"/*".toList <:+: rest := by decide
  line : ¬"//".toList <:+: rest := by decide

namespace PlainTag

variable (tag : PlainTag)

def inside : List Char := tag.name ++ tag.rest

def text : List Char := tagText tag.inside

theorem isAlphanum_or : ∀ c ∈ tag.name, c.isAlphanum ∨ c = '-' := fun c hc => by
  simpa using List.all_eq_true.1 tag.letters c hc

theorem eq_space_of_mem_head : ∀ c ∈ tag.rest.head?, c = ' ' := fun c hc => by
  simpa using (Option.all_eq_true ..).1 tag.apart c hc

theorem not_mem_name {c : Char} (symbol : ¬c.isAlphanum) (other : c ≠ '-') : c ∉ tag.name :=
  fun h => (tag.isAlphanum_or c h).elim symbol other

theorem word_name : Word tag.name := by
  intro c hc blank
  rcases tag.isAlphanum_or c hc with alnum | rfl
  · rcases (Bool.or_eq_true ..).mp alnum with alpha | digit
    · exact not_isBlank_of_isAlpha alpha blank
    · exact not_isBlank_of_isDigit digit blank
  · exact absurd blank (by decide)

theorem opened_inside : '<' ∉ tag.inside := by
  rw [inside, List.mem_append, not_or]
  exact ⟨tag.not_mem_name (by decide) (by decide), tag.opened⟩

theorem closed_inside : '>' ∉ tag.inside := by
  rw [inside, List.mem_append, not_or]
  exact ⟨tag.not_mem_name (by decide) (by decide), tag.closed⟩

theorem not_infix_text {d : Char} (hd : d ∉ [' ', '>']) (none : ¬['/', d] <:+: tag.rest) :
    ¬['/', d] <:+: tag.text := by
  simp only [List.mem_cons, List.not_mem_nil, or_false, not_or] at hd
  have front : ¬['/', d] <:+: '<' :: tag.name := fun h =>
    absurd (h.subset (List.mem_cons_self ..)) (by simp [tag.not_mem_name (c := '/')])
  have ends (r : List Char) : ['/', d] <:+: r ++ ['>'] ↔ ['/', d] <:+: r :=
    infix_concat_iff (by simp [Ne.symm hd.2])
  cases hr : tag.rest with
  | nil =>
    have whole : tag.text = '<' :: tag.name ++ ['>'] := by simp [text, inside, hr, tagText]
    rwa [whole, ends]
  | cons c r =>
    obtain rfl : c = ' ' := tag.eq_space_of_mem_head c (by simp [hr])
    have whole : tag.text = ('<' :: tag.name ++ ' ' :: r) ++ ['>'] := by
      simp [text, inside, hr, tagText]
    rw [hr] at none
    rw [whole, ends, infix_append_cons_iff (by simp [Ne.symm hd.1]), not_or]
    exact ⟨front, fun h => none (h.trans (List.suffix_cons ' ' r).isInfix)⟩

theorem unopened : Comment.Unopened tag.text where
  block := tag.not_infix_text (by decide) tag.block
  line := tag.not_infix_text (by decide) tag.line
  markup := by
    intro h
    obtain ⟨c, name, hn⟩ := List.exists_cons_of_ne_nil tag.filled
    have whole : tag.text = '<' :: c :: (name ++ tag.rest ++ ['>']) := by
      simp [text, inside, hn, tagText]
    rw [whole] at h
    rcases List.infix_cons_iff.1 h with opens | later
    · obtain rfl : '!' = c := (List.cons_prefix_cons.1 (List.cons_prefix_cons.1 opens).2).1
      exact tag.not_mem_name (by decide) (by decide) (hn ▸ List.mem_cons_self)
    · have bracket : '<' ∈ c :: (name ++ tag.rest ++ ['>']) := later.subset (by decide)
      have outside := tag.opened_inside
      simp_all [inside]
  slash := by
    have last : tag.text.getLast? = some '>' := List.getLast?_concat
    rw [last]
    decide

theorem strip_text : Comment.strip tag.text = tag.text := by
  have closed : Closed tag.text :=
    closed_cons.2 ⟨fun _ => by simp, Closed.of_not_mem (by simp [tag.opened_inside])⟩
  rw [← Comment.eraseIn_eq_strip, Comment.eraseIn_of_unopened tag.unopened closed]

theorem remove_text : Comment.remove tag.text = normalize tag.text := by
  rw [Comment.remove_eq, tag.strip_text]

end PlainTag

end WcagAudit
