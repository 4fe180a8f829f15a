import WcagAudit.Comment
import WcagAudit.Proofs.Pattern.Search

namespace WcagAudit

section

variable {s : List Char} {e : Char}

theorem not_prefix_of_first (he : e ∉ s) {v : List Char} (filled : v ≠ []) (none : ¬s ++ [e] <:+: v)
    (rest : List Char) : ¬s ++ [e] <+: v ++ (s ++ [e] ++ rest) := by
  rintro ⟨x, hx⟩
  rcases List.append_eq_append_iff.1 hx with ⟨z, rfl, -⟩ | ⟨z, hz, hrest⟩
  · exact none (List.prefix_append _ z).isInfix
  rcases List.eq_nil_or_concat z with rfl | ⟨z, d, rfl⟩
  · exact none ((List.append_nil v ▸ hz) ▸ List.infix_rfl)
  -- The mark would end inside the other one, where its last character does not stand.
  rw [List.concat_eq_append, ← List.append_assoc] at hz
  obtain ⟨rfl, hd⟩ := List.append_inj' hz rfl
  cases hd
  rw [List.mem_append, not_or] at he
  have split : v ++ z ++ e :: rest = z ++ e :: x := by simpa using hrest
  have same := congrArg (List.takeWhile (· != e)) split
  have other {l : List Char} (hl : e ∉ l) : ∀ c ∈ l, (c != e) = true :=
    fun c hc => bne_iff_ne.2 fun h => hl (h ▸ hc)
  rw [List.takeWhile_append_of_pos (other (by simp [he])), List.takeWhile_append_of_pos (other he.2)]
    at same
  simp_all

end

theorem exists_first {mark t : List Char} (h : mark <:+: t) :
    ∃ body rest, t = body ++ mark ++ rest ∧ (mark ≠ [] → ¬mark <:+: body) := by
  induction t with
  | nil =>
    obtain rfl := List.infix_nil.1 h
    exact ⟨[], [], rfl, fun filled => absurd rfl filled⟩
  | cons c t ih =>
    by_cases here : mark <+: c :: t
    · obtain ⟨rest, split⟩ := here
      exact ⟨[], rest, split.symm, fun filled => by simpa using filled⟩
    · obtain ⟨body, rest, rfl, none⟩ := ih ((List.infix_cons_iff.1 h).resolve_left here)
      refine ⟨c :: body, rest, rfl, fun filled occurs => ?_⟩
      rcases List.infix_cons_iff.1 occurs with first | later
      · refine here (first.trans ?_)
        rw [List.append_assoc, ← List.cons_append]
        exact List.prefix_append _ _
      · exact none filled later

namespace Pattern

open Comment

variable {α : Type _} {opening closing : String} {t u : Trail}

theorem not_reads_exactly {s : String} (h : ¬s.toList <+: t.rest) : ¬(exactly s).Reads t u := by
  rintro reads
  obtain ⟨rest, ht, -⟩ := reads_exactly.1 reads
  exact h ⟨rest, ht.symm⟩

theorem run_between {s : List Char} {e : Char} (mark : closing.toList = s ++ [e]) (he : e ∉ s)
    {body rest : List Char} (h : t.rest = opening.toList ++ body ++ closing.toList ++ rest)
    (none : ¬closing.toList <:+: body) {k : Trail → Option α} {r : α}
    (hk : k (t.past (opening.toList ++ body ++ closing.toList) rest) = some r) :
    (between opening closing).run t k = some r := by
  rw [List.append_assoc, List.append_assoc] at h
  rw [between, run_append, run_append, run_exactly h]
  refine run_few_of_some (w := body) rfl (by simp) (fun v c x split => ?_) ?_
  · -- In front of the body's end, the closing mark does not stand.
    refine run_eq_none (fun u => not_reads_exactly ?_) k
    rw [Trail.rest_past, mark]
    refine not_prefix_of_first he (List.cons_ne_nil c x) (fun occurs => none ?_) rest
    rw [mark, split]
    exact occurs.trans (List.suffix_append v _).isInfix
  · rwa [Trail.past_past, run_exactly rfl, Trail.past_past]

theorem reads_between (filled : closing.toList ≠ []) (h : (between opening closing).Reads t u) :
    ∃ body rest, t.rest = opening.toList ++ body ++ closing.toList ++ rest ∧
      ¬closing.toList <:+: body := by
  obtain ⟨_, inside, ends⟩ := reads_append.1 h
  obtain ⟨_, opens, x, y, hx, -, rfl⟩ := reads_append.1 inside
  obtain ⟨_, ht, rfl⟩ := reads_exactly.1 opens
  obtain ⟨z, hz, -⟩ := reads_exactly.1 ends
  rw [Trail.rest_past] at hx hz
  have occurs : closing.toList <:+: x ++ y := ⟨x, z, by rw [hz, List.append_assoc]⟩
  obtain ⟨body, rest, split, none⟩ := exists_first occurs
  exact ⟨body, rest, by rw [ht, hx, split]; simp, none filled⟩

theorem not_reads_between (filled : closing.toList ≠ []) (h : ¬opening.toList <+: t.rest) :
    ¬(between opening closing).Reads t u := by
  intro reads
  obtain ⟨body, rest, ht, -⟩ := reads_between filled reads
  exact h ⟨_, by rw [ht, List.append_assoc, List.append_assoc]⟩

end Pattern

end WcagAudit
