import WcagAudit.Proofs.Pattern.Enclosed
import WcagAudit.Proofs.Text.Closed
import WcagAudit.Proofs.Text.Digits

namespace WcagAudit

namespace Comment

open Pattern

/-- The text `comment` is a comment if `post` stands behind it. -/
inductive Stands : (comment post : List Char) → Prop
  | block {body : List Char} (post : List Char) : ¬"*/".toList <:+: body →
    Stands ("/*".toList ++ body ++ "*/".toList) post
  | line {body post : List Char} : (∀ c ∈ body, c ≠ '\r' ∧ c ≠ '\n') →
    (∀ c ∈ post.head?, c = '\r' ∨ c = '\n') → Stands ("//".toList ++ body) post
  | markup {body : List Char} (post : List Char) : ¬"-->".toList <:+: body →
    Stands ("<!--".toList ++ body ++ "-->".toList) post

def Opens (t : List Char) : Prop :=
  "/*".toList <+: t ∨ "//".toList <+: t ∨ "<!--".toList <+: t

theorem Stands.opens {c post : List Char} (h : Stands c post) : Opens (c ++ post) := by
  cases h with
  | block _ _ => exact .inl ⟨_, by rw [List.append_assoc, List.append_assoc]⟩
  | line _ _ => exact .inr (.inl ⟨_, by rw [List.append_assoc]⟩)
  | markup _ _ => exact .inr (.inr ⟨_, by rw [List.append_assoc, List.append_assoc]⟩)

theorem Stands.ne_nil {c post : List Char} (h : Stands c post) : c ≠ [] := by
  cases h <;> simp

def inLine (c : Char) : Bool := c != '\r' && c != '\n'

theorem inLine_iff {c : Char} : inLine c ↔ c ≠ '\r' ∧ c ≠ '\n' := by simp [inLine]

theorem not_inLine_iff {c : Char} : ¬inLine c ↔ c = '\r' ∨ c = '\n' := by
  rw [inLine_iff, not_and_or, not_not, not_not]

theorem stands_line (t : List Char) :
    Stands ("//".toList ++ t.takeWhile inLine) (t.dropWhile inLine) := by
  refine .line (fun c hc => inLine_iff.1 (List.all_eq_true.1 List.all_takeWhile c hc)) fun c hc => ?_
  have ends := List.head?_dropWhile_not inLine t
  rw [show (t.dropWhile inLine).head? = some c from hc] at ends
  exact not_inLine_iff.1 (by simpa using ends)

theorem takeWhile_inLine {body post : List Char} (inside : ∀ c ∈ body, c ≠ '\r' ∧ c ≠ '\n')
    (ended : ∀ c ∈ post.head?, c = '\r' ∨ c = '\n') :
    (body ++ post).takeWhile inLine = body ∧ (body ++ post).dropWhile inLine = post := by
  have inside' : ∀ c ∈ body, inLine c := fun c hc => inLine_iff.2 (inside c hc)
  have ended' : ∀ c ∈ post.head?, ¬inLine c := fun c hc => not_inLine_iff.2 (ended c hc)
  exact ⟨takeWhile_run inside' ended', dropWhile_run inside' ended'⟩

theorem comment_eq : comment = either block (either line markup) := rfl

theorem line_eq : line = exactly "//" ++ many inLine := rfl

theorem not_reads_block {t u : Trail} : ¬"/*".toList <+: t.rest → ¬block.Reads t u :=
  not_reads_between (by decide)

theorem not_reads_line {t u : Trail} (h : ¬"//".toList <+: t.rest) : ¬line.Reads t u := by
  intro reads
  obtain ⟨_, mark, -⟩ := reads_append.1 reads
  exact not_reads_exactly h mark

theorem matchAt?_of_stands {c post : List Char} (h : Stands c post) (before : Char) :
    comment.matchAt? before (c ++ post) = some ⟨c, []⟩ := by
  have whole : (c ++ post).take (Trail.past ⟨0, before, c ++ post, []⟩ c post).pos = c := by
    rw [Trail.pos_past, Nat.zero_add, List.take_left]
  rw [matchAt?, comment_eq]
  cases h with
  | @block body _ none =>
    apply run_either_of_some
    exact run_between (s := ['*']) (e := '/') rfl (by decide) rfl none (by rw [whole]; rfl)
  | @markup body _ none =>
    rw [run_either_of_not_reads fun _ => not_reads_block (by simp),
      run_either_of_not_reads fun _ => not_reads_line (by simp)]
    exact run_between (s := ['-', '-']) (e := '>') rfl (by decide) rfl none (by rw [whole]; rfl)
  | @line body _ inside ended =>
    obtain ⟨same, behind⟩ := takeWhile_inLine inside ended
    rw [run_either_of_not_reads fun _ => not_reads_block (by simp)]
    apply run_either_of_some
    rw [line_eq, run_append, run_exactly (List.append_assoc ..)]
    apply run_many_of_some
    rw [Trail.rest_past, same, behind, Trail.past_past, whole]
    rfl

theorem matchAt?_eq_some_iff {before : Char} {cs : List Char} {m : Match} :
    comment.matchAt? before cs = some m ↔
      ∃ post, cs = m.text ++ post ∧ Stands m.text post ∧ m.parts = [] := by
  constructor
  · intro h
    obtain ⟨c, post, rfl, stands⟩ : ∃ c post, cs = c ++ post ∧ Stands c post := by
      obtain ⟨u, reads | reads | reads, -, -⟩ := reads_of_matchAt? h
      · obtain ⟨body, rest, hcs, none⟩ := reads_between (by decide) reads
        exact ⟨_, rest, hcs, .block rest none⟩
      · obtain ⟨_, mark, -⟩ := reads_append.1 reads
        obtain ⟨rest, hcs, -⟩ := reads_exactly.1 mark
        refine ⟨_, _, ?_, stands_line rest⟩
        rw [List.append_assoc, List.takeWhile_append_dropWhile]
        exact hcs
      · obtain ⟨body, rest, hcs, none⟩ := reads_between (by decide) reads
        exact ⟨_, rest, hcs, .markup rest none⟩
    rw [matchAt?_of_stands stands before] at h
    cases h
    exact ⟨post, rfl, stands, rfl⟩
  · rintro ⟨post, rfl, stands, parts⟩
    rw [matchAt?_of_stands stands before, ← parts]

theorem matchAt?_before (before before' : Char) (cs : List Char) :
    comment.matchAt? before cs = comment.matchAt? before' cs := by
  apply Option.ext
  intro m
  rw [matchAt?_eq_some_iff, matchAt?_eq_some_iff]

theorem eraseFrom_before (before before' : Char) (cs : List Char) :
    comment.eraseFrom 0 before cs = comment.eraseFrom 0 before' cs := by
  cases cs with
  | nil => rfl
  | cons c cs => simp only [eraseFrom, matchAt?_before before before']

theorem eraseIn_stands {c post : List Char} (h : Stands c post) :
    comment.eraseIn (c ++ post) = comment.eraseIn post := by
  have found := matchAt?_of_stands h ' '
  obtain ⟨d, w, rfl⟩ := List.exists_cons_of_ne_nil h.ne_nil
  rw [List.cons_append] at found ⊢
  rw [eraseIn, eraseFrom, found]
  exact (eraseFrom_skip w post d).trans (eraseFrom_before _ _ post)

theorem eraseIn_cons {c : Char} {t : List Char} (none : ∀ w post, c :: t = w ++ post → ¬Stands w post) :
    comment.eraseIn (c :: t) = c :: comment.eraseIn t := by
  have here : comment.matchAt? ' ' (c :: t) = .none := by
    refine Option.eq_none_iff_forall_ne_some.2 fun m hm => ?_
    obtain ⟨post, split, stands, -⟩ := matchAt?_eq_some_iff.1 hm
    exact none _ post split stands
  rw [eraseIn, eraseFrom, here]
  exact congrArg (c :: ·) (eraseFrom_before c ' ' t)

theorem eraseIn_append {pre post : List Char}
    (none : ∀ v, v <:+ pre → v ≠ [] → ¬Opens (v ++ post)) :
    comment.eraseIn (pre ++ post) = pre ++ comment.eraseIn post := by
  induction pre with
  | nil => rfl
  | cons c pre ih =>
    rw [List.cons_append, eraseIn_cons, ih fun v hv => none v (hv.trans (List.suffix_cons c pre)),
      List.cons_append]
    intro w rest split stands
    refine none (c :: pre) List.suffix_rfl (List.cons_ne_nil c pre) ?_
    rw [List.cons_append, split]
    exact stands.opens

/-- The text has no comment mark, nor the first half of one at its end. -/
structure Unopened (t : List Char) : Prop where
  block : ¬"/*".toList <:+: t
  line : ¬"//".toList <:+: t
  markup : ¬"<!--".toList <:+: t
  slash : t.getLast? ≠ some '/'

theorem not_prefix_of_slash {d : Char} {pre v : List Char} (none : ¬['/', d] <:+: pre)
    (slash : pre.getLast? ≠ some '/') (hv : v <:+ pre) (filled : v ≠ []) (post : List Char) :
    ¬['/', d] <+: v ++ post := by
  intro mark
  cases v with
  | nil => exact filled rfl
  | cons c v =>
    cases v with
    | nil =>
      obtain ⟨u, rfl⟩ := hv
      obtain rfl : '/' = c := (List.cons_prefix_cons.1 mark).1
      exact slash List.getLast?_concat
    | cons d' v =>
      simp only [List.cons_append, List.cons_prefix_cons, List.nil_prefix, and_true] at mark
      obtain ⟨rfl, rfl⟩ := mark
      exact none ((List.prefix_append ['/', d] v).isInfix.trans hv.isInfix)

theorem split_of_markup {v post : List Char} (none : ¬"<!--".toList <:+: v) (filled : v ≠ [])
    (mark : "<!--".toList <+: v ++ post) :
    ∃ v' z, v = '<' :: v' ∧ z ≠ [] ∧ "!--".toList = v' ++ z ∧ z <+: post := by
  obtain ⟨x, hx⟩ := mark
  rcases List.append_eq_append_iff.1 hx with ⟨z, rfl, -⟩ | ⟨z, hz, rfl⟩
  · exact absurd (List.prefix_append _ z).isInfix none
  · obtain ⟨c, v', rfl⟩ := List.exists_cons_of_ne_nil filled
    have split : '<' :: "!--".toList = c :: (v' ++ z) := hz
    obtain ⟨rfl, hv'⟩ := List.cons_eq_cons.1 split
    refine ⟨v', z, rfl, ?_, hv', List.prefix_append z x⟩
    rintro rfl
    rw [hz, List.append_nil] at none
    exact none List.infix_rfl

theorem Unopened.not_opens {pre v post : List Char} (h : Unopened pre) (hv : v <:+ pre)
    (filled : v ≠ [])
    (apart : ∀ v' z, v = '<' :: v' → z ≠ [] → "!--".toList = v' ++ z → ¬z <+: post) :
    ¬Opens (v ++ post) := by
  rintro (block | line | markup)
  · exact not_prefix_of_slash h.block h.slash hv filled post block
  · exact not_prefix_of_slash h.line h.slash hv filled post line
  · obtain ⟨v', z, tag, further, split, continued⟩ :=
      split_of_markup (fun occurs => h.markup (occurs.trans hv.isInfix)) filled markup
    exact apart v' z tag further split continued

theorem eraseIn_comment {pre c post : List Char} (h : Unopened pre) (stands : Stands c post) :
    comment.eraseIn (pre ++ c ++ post) = pre ++ comment.eraseIn post := by
  rw [List.append_assoc, eraseIn_append, eraseIn_stands stands]
  intro v hv filled
  refine h.not_opens hv filled fun v' z _ further split continued => ?_
  obtain ⟨d, z, rfl⟩ := List.exists_cons_of_ne_nil further
  have inMark : d ∈ "!--".toList := by simp [split]
  have first : (c ++ post).head? = some d := by
    obtain ⟨x, hx⟩ := continued
    rw [← hx]
    rfl
  have mark : (c ++ post).head? = some '/' ∨ (c ++ post).head? = some '<' := by
    cases stands <;> simp
  rcases mark with mark | mark
  all_goals
    cases first.symm.trans mark
    exact absurd inMark (by decide)

theorem eraseIn_append_of_closed {s : List Char} (h : Unopened s) (closed : Closed s)
    (t : List Char) : comment.eraseIn (s ++ t) = s ++ comment.eraseIn t := by
  refine eraseIn_append fun v hv filled => h.not_opens hv filled ?_
  rintro v' z rfl - split -
  have inMark : '>' ∈ "!--".toList := by
    rw [split]
    exact List.mem_append_left z (closed v' hv)
  exact absurd inMark (by decide)

theorem eraseIn_of_unopened {s : List Char} (h : Unopened s) (closed : Closed s) :
    comment.eraseIn s = s := by
  have whole := eraseIn_append_of_closed h closed []
  rwa [List.append_nil, show comment.eraseIn [] = [] from rfl, List.append_nil] at whole

/-- What is left of a fragment without its comments stands in what is left of the whole, with nothing
but spaces behind it. -/
theorem remove_append {s : List Char} (h : Unopened s) (closed : Closed s) (t : List Char) :
    ∃ gap : List Char, (∀ c ∈ gap, c = ' ') ∧ remove (s ++ t) = remove s ++ gap ++ remove t := by
  rw [remove, remove, remove, eraseIn_append_of_closed h closed t, eraseIn_of_unopened h closed]
  exact normalize_append s _

theorem closed_remove {s : List Char} (h : Unopened s) (closed : Closed s) : Closed (remove s) := by
  rw [remove, eraseIn_of_unopened h closed]
  exact closed_normalize closed

end Comment

end WcagAudit
