import WcagAudit.Proofs.Comment
import WcagAudit.Rule.Catalogue

namespace WcagAudit.Rule

open Comment

def commentFree : List Rule := [altText, keyboardAccess]

theorem check_eq_of_remove_eq {s t : List Char} (h : remove s = remove t) {r : Rule}
    (hr : r ∈ commentFree) : r.check s = r.check t := by
  simp only [commentFree, List.mem_cons, List.not_mem_nil, or_false] at hr
  rcases hr with rfl | rfl
  · simp only [check, AltText.check, h]
  · simp only [check, KeyboardAccess.check, h]

/-- Which comment stands in a text changes neither the verdict nor what is said of it. -/
theorem comment_unseen {pre c c' post : List Char} (unopened : Unopened pre) (h : Stands c post)
    (h' : Stands c' post) :
    ∀ r ∈ commentFree, r.passes (pre ++ c ++ post) = r.passes (pre ++ c' ++ post) ∧
      r.events (pre ++ c ++ post) = r.events (pre ++ c' ++ post) := by
  intro r hr
  have same : remove (pre ++ c ++ post) = remove (pre ++ c' ++ post) := by
    rw [remove, remove, eraseIn_comment unopened h, eraseIn_comment unopened h']
  simp only [passes, events, outcome, check_eq_of_remove_eq same hr, and_self]

theorem comment_in_image_unseen :
    Unopened "<img ".toList ∧
      Stands ("/*".toList ++ " alt= --> <a> // onclick= <!-- *".toList ++ "*/".toList)
        " src><!-- */ -->".toList ∧
      Stands ("/*".toList ++ "<".toList ++ "*/".toList) " src><!-- */ -->".toList ∧
      altText.passes ("<img ".toList ++
          ("/*".toList ++ " alt= --> <a> // onclick= <!-- *".toList ++ "*/".toList) ++
          " src><!-- */ -->".toList) =
        altText.passes ("<img ".toList ++ ("/*".toList ++ "<".toList ++ "*/".toList) ++
          " src><!-- */ -->".toList) := by
  have unopened : Unopened "<img ".toList := by
    constructor <;> simp [List.infix_cons_iff]
  have first := Stands.block " src><!-- */ -->".toList
    (show ¬"*/".toList <:+: " alt= --> <a> // onclick= <!-- *".toList by simp [List.infix_cons_iff])
  have second := Stands.block " src><!-- */ -->".toList
    (show ¬"*/".toList <:+: "<".toList by simp [List.infix_cons_iff])
  exact ⟨unopened, first, second,
    (comment_unseen unopened first second altText (List.mem_cons_self ..)).1⟩

end WcagAudit.Rule
