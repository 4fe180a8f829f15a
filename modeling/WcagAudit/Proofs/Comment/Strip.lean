import WcagAudit.Proofs.Comment
import WcagAudit.Proofs.Text.Spacing

namespace WcagAudit.Comment

open Pattern

def behind? (mark : List Char) : List Char → Option (List Char)
  | [] => none
  | c :: t => if mark <+: c :: t then some ((c :: t).drop mark.length) else behind? mark t

def behindComment? : List Char → Option (List Char)
  | '/' :: '*' :: t => behind? "*/".toList t
  | '/' :: '/' :: t => some (t.dropWhile inLine)
  | '<' :: '!' :: '-' :: '-' :: t => behind? "-->".toList t
  | _ => none

theorem length_of_behind? {mark t rest : List Char} (h : behind? mark t = some rest) :
    rest.length ≤ t.length := by
  induction t with
  | nil => cases h
  | cons c t ih =>
    rw [behind?] at h
    split at h
    · cases h
      simp
    · exact Nat.le_succ_of_le (ih h)

theorem length_of_behindComment? {t rest : List Char} (h : behindComment? t = some rest) :
    rest.length < t.length := by
  unfold behindComment? at h
  split at h
  · have := length_of_behind? h
    simp only [List.length_cons]
    omega
  · rename_i t
    cases h
    have := (List.dropWhile_suffix (l := t) inLine).length_le
    simp only [List.length_cons]
    omega
  · have := length_of_behind? h
    simp only [List.length_cons]
    omega
  · cases h

def strip : List Char → List Char
  | [] => []
  | c :: t =>
    match _h : behindComment? (c :: t) with
    | some rest => strip rest
    | none => c :: strip t
termination_by t => t.length
decreasing_by
  · exact length_of_behindComment? _h
  · exact Nat.lt_succ_self t.length

@[simp] theorem strip_nil : strip [] = [] := by rw [strip]

theorem strip_of_some {t rest : List Char} (h : behindComment? t = some rest) :
    strip t = strip rest := by
  cases t with
  | nil => cases h
  | cons c t =>
    rw [strip]
    split <;> simp_all

theorem strip_of_none {c : Char} {t : List Char} (h : behindComment? (c :: t) = none) :
    strip (c :: t) = c :: strip t := by
  rw [strip]
  split <;> simp_all

theorem isSome_behind? {mark t : List Char} (filled : mark ≠ []) :
    (behind? mark t).isSome ↔ mark <:+: t := by
  induction t with
  | nil => simp [behind?, filled]
  | cons c t ih =>
    rw [behind?, List.infix_cons_iff]
    split <;> simp_all

theorem behind?_eq_some_iff {s t rest : List Char} {e : Char} (he : e ∉ s) :
    behind? (s ++ [e]) t = some rest ↔
      ∃ body, t = body ++ (s ++ [e] ++ rest) ∧ ¬s ++ [e] <:+: body := by
  induction t with
  | nil => simp [behind?]
  | cons c t ih =>
    rw [behind?]
    split
    · rename_i here
      obtain ⟨x, hx⟩ := here
      rw [← hx, List.drop_left, Option.some.injEq]
      constructor
      · rintro rfl
        exact ⟨[], rfl, by simp⟩
      · rintro ⟨body, split, none⟩
        cases body with
        | nil => exact List.append_cancel_left split
        | cons d body =>
          refine absurd ?_ (not_prefix_of_first he (List.cons_ne_nil d body) none rest)
          exact split ▸ List.prefix_append _ x
    · rename_i later
      rw [ih]
      constructor
      · rintro ⟨body, rfl, none⟩
        refine ⟨c :: body, rfl, fun occurs => ?_⟩
        rcases List.infix_cons_iff.1 occurs with opens | further
        · exact later (opens.trans (List.prefix_append (c :: body) _))
        · exact none further
      · rintro ⟨body, split, none⟩
        cases body with
        | nil => exact absurd (split ▸ List.prefix_append _ rest) later
        | cons d body =>
          obtain ⟨rfl, rfl⟩ := List.cons_eq_cons.1 split
          exact ⟨body, rfl, fun occurs => none (List.infix_cons occurs)⟩

theorem behindComment?_eq_some_iff {t post : List Char} :
    behindComment? t = some post ↔ ∃ c, t = c ++ post ∧ Stands c post := by
  have block {t : List Char} : behind? "*/".toList t = some post ↔
      ∃ body, t = body ++ ("*/".toList ++ post) ∧ ¬"*/".toList <:+: body :=
    behind?_eq_some_iff (s := ['*']) (by decide)
  have markup {t : List Char} : behind? "-->".toList t = some post ↔
      ∃ body, t = body ++ ("-->".toList ++ post) ∧ ¬"-->".toList <:+: body :=
    behind?_eq_some_iff (s := ['-', '-']) (by decide)
  constructor
  · intro h
    unfold behindComment? at h
    split at h
    · obtain ⟨body, rfl, none⟩ := block.1 h
      exact ⟨_, by simp, .block post none⟩
    · rename_i t
      cases h
      exact ⟨_, by simp, stands_line t⟩
    · obtain ⟨body, rfl, none⟩ := markup.1 h
      exact ⟨_, by simp, .markup post none⟩
    · cases h
  · rintro ⟨c, rfl, stands⟩
    cases stands with
    | @block body _ none => exact block.2 ⟨body, by simp, none⟩
    | @line body _ inside ended => exact congrArg some (takeWhile_inLine inside ended).2
    | @markup body _ none => exact markup.2 ⟨body, by simp, none⟩

theorem eraseIn_eq_strip (t : List Char) : comment.eraseIn t = strip t := by
  induction t using strip.induct with
  | case1 => exact strip_nil.symm
  | case2 c t rest h ih =>
    obtain ⟨w, split, stands⟩ := behindComment?_eq_some_iff.1 h
    rw [strip_of_some h, split, eraseIn_stands stands, ih]
  | case3 c t h ih =>
    rw [strip_of_none h, eraseIn_cons, ih]
    intro w post split stands
    rw [behindComment?_eq_some_iff.2 ⟨w, split, stands⟩] at h
    cases h

theorem remove_eq (t : List Char) : remove t = normalize (strip t) := by
  rw [remove, eraseIn_eq_strip]

theorem behindComment?_of_other {c : Char} (h : c ∉ ['/', '<']) (t : List Char) :
    behindComment? (c :: t) = none := by
  unfold behindComment?
  split <;> simp_all

theorem strip_append_of_other {w : List Char} (h : ∀ c ∈ w, c ∉ ['/', '<']) (t : List Char) :
    strip (w ++ t) = w ++ strip t := by
  induction w with
  | nil => rfl
  | cons c w ih =>
    obtain ⟨first, later⟩ := List.forall_mem_cons.1 h
    rw [List.cons_append, strip_of_none (behindComment?_of_other first _), ih later,
      List.cons_append]

theorem behind?_eq_none {mark t : List Char} (filled : mark ≠ []) (h : ¬mark <:+: t) :
    behind? mark t = none := by
  rw [← isSome_behind? filled] at h
  simpa using h

/-- Removing comments is one walk over the text and then its normal form.  The walk keeps an opening
mark without its closing mark, which cannot share a character with it. -/
theorem remove_eq_normalize_strip (t : List Char) :
    remove t = normalize (strip t) ∧ Spaced (remove t) ∧
    (∀ body, ¬"*/".toList <:+: body → strip ("/*".toList ++ body) = "/*".toList ++ strip body) ∧
    (∀ body, ¬"-->".toList <:+: body →
      strip ("<!--".toList ++ body) = "<!--".toList ++ strip body) := by
  refine ⟨remove_eq t, spaced_normalize _, fun body unclosed => ?_, fun body unclosed => ?_⟩
  · have kept : behindComment? ('/' :: ('*' :: body)) = none := behind?_eq_none (by decide) unclosed
    exact (strip_of_none kept).trans
      (congrArg ('/' :: ·) (strip_append_of_other (w := ['*']) (by simp) body))
  · have kept : behindComment? ('<' :: ('!' :: '-' :: '-' :: body)) = none :=
      behind?_eq_none (by decide) unclosed
    exact (strip_of_none kept).trans
      (congrArg ('<' :: ·) (strip_append_of_other (w := ['!', '-', '-']) (by simp) body))

theorem half_closed_marks_kept :
    ¬"*/".toList <:+: "/ <p>".toList ∧ ¬"-->".toList <:+: "> <p>".toList ∧
      strip ("/*".toList ++ "/ <p>".toList) = "/*".toList ++ strip "/ <p>".toList ∧
      strip ("<!--".toList ++ "> <p>".toList) = "<!--".toList ++ strip "> <p>".toList := by
  obtain ⟨-, -, block, markup⟩ := remove_eq_normalize_strip []
  have apart : ¬"*/".toList <:+: "/ <p>".toList := by decide
  have apart' : ¬"-->".toList <:+: "> <p>".toList := by decide
  exact ⟨apart, apart', block _ apart, markup _ apart'⟩

example : strip "<!--/*-->*/ <!--> // /*\n/*/".toList = "*/ <!--> \n/*/".toList := by
  decide +kernel

end WcagAudit.Comment
