import WcagAudit.Proofs.Pattern.Quote
import WcagAudit.Proofs.Pattern.Tag

/-! Tags by their brackets alone.  A scan goes through a text from left to right and takes what stands
between an opening bracket and the next closing one, if that qualifies.  A search for a tag pattern is
such a scan, whatever the pattern tries on its way. -/

namespace WcagAudit

def tagText (s : List Char) : List Char := '<' :: s ++ ['>']

/-- What the tags that qualify have between their brackets.  The scan goes on behind a tag that it
takes, and one character further otherwise. -/
def takenTags (qualifies : List Char → Prop) [DecidablePred qualifies] :
    List Char → List (List Char)
  | [] => []
  | c :: cs =>
    let inside := cs.takeWhile (· != '>')
    if c = '<' ∧ '>' ∈ cs ∧ qualifies inside then
      inside :: takenTags qualifies (cs.drop (inside.length + 1))
    else takenTags qualifies cs
termination_by t => t.length
decreasing_by
  · rw [List.length_drop, List.length_cons]
    omega
  · exact Nat.lt_succ_self _

theorem takeWhile_tag {w : List Char} (rest : List Char) (hw : '>' ∉ w) :
    (w ++ '>' :: rest).takeWhile (· != '>') = w := by
  have other : ∀ c ∈ w, (c != '>') = true := fun c hc => bne_iff_ne.2 (ne_of_mem_of_not_mem hc hw)
  rw [List.takeWhile_append_of_pos other, List.takeWhile_cons_of_neg (by simp), List.append_nil]

theorem drop_tag (w rest : List Char) : (w ++ '>' :: rest).drop (w.length + 1) = rest := by
  rw [← List.drop_drop, List.drop_left, List.drop_succ_cons, List.drop_zero]

theorem not_mem_takeWhile_tag (t : List Char) : '>' ∉ t.takeWhile (· != '>') :=
  fun h => by simpa using List.all_eq_true.1 List.all_takeWhile _ h

theorem mem_takenTags {qualifies : List Char → Prop} [DecidablePred qualifies] {t s : List Char}
    (h : s ∈ takenTags qualifies t) : '>' ∉ s ∧ qualifies s := by
  fun_induction takenTags qualifies t with
  | case1 => cases h
  | case2 c cs inside taken ih =>
    rcases List.mem_cons.1 h with rfl | h
    · exact ⟨not_mem_takeWhile_tag cs, taken.2.2⟩
    · exact ih h
  | case3 c cs inside _ ih => exact ih h

theorem infix_map_iff {α β : Type _} {f : α → β} {word : List β} {w : List α} :
    word <:+: w.map f ↔ ∃ v, v <:+ w ∧ word <+: v.map f := by
  constructor
  · rintro ⟨u, v, h⟩
    obtain ⟨y, z, rfl, hy, rfl⟩ := List.map_eq_append_iff.1 h.symm
    obtain ⟨x, y, rfl, -, rfl⟩ := List.map_eq_append_iff.1 hy
    exact ⟨y ++ z, ⟨x, (List.append_assoc ..).symm⟩, by simp⟩
  · rintro ⟨v, ⟨x, rfl⟩, z, hz⟩
    exact ⟨x.map f, z, by rw [List.append_assoc, hz, List.map_append]⟩

structure IsName (name : String) : Prop where
  small : name.toList.map foldLetter = name.toList
  inside : '>' ∉ name.toList
  last : name.toList.getLast?.any Char.isAlpha

instance : DecidablePred IsName := fun name =>
  decidable_of_iff (name.toList.map foldLetter = name.toList ∧ '>' ∉ name.toList ∧
    name.toList.getLast?.any Char.isAlpha)
    ⟨fun ⟨small, inside, last⟩ => ⟨small, inside, last⟩, fun h => ⟨h.small, h.inside, h.last⟩⟩

/-- What stands between the brackets of a tag starts with the name, in small letters or capitals, and
the name ends there. -/
def Named (name : String) (s : List Char) : Prop :=
  name.toList <+: s.map foldLetter ∧ ¬isWordChar ((s.drop name.length).headD '>')

instance (name : String) : DecidablePred (Named name) := fun s => by
  unfold Named
  infer_instance

theorem IsName.isBoundary_iff {name : String} (h : IsName name) {x : List Char}
    (same : x.map foldLetter = name.toList) (before after : Char) :
    isBoundary (x.getLastD before) after ↔ ¬isWordChar after := by
  obtain ⟨l, hl, letter⟩ := (Option.any_eq_true ..).1 h.last
  rw [← same, List.getLast?_map, Option.map_eq_some_iff] at hl
  obtain ⟨c, hc, rfl⟩ := hl
  have word : isWordChar (x.getLastD before) := by
    rw [List.getLastD_eq_getLast?, hc]
    exact isWordChar_of_foldLetter letter
  rw [isBoundary, word]
  cases isWordChar after <;> decide

namespace Pattern

variable {p inner a : Pattern} {stop : Char}

theorem stretch_inside {accepts : Char → Bool} (refused : ¬accepts stop) {w r x rest : List Char}
    (h : x ++ rest = w ++ stop :: r) (hx : x.all accepts) (hw : stop ∉ w) :
    ∃ v, rest = v ++ stop :: r ∧ stop ∉ v := by
  rcases List.append_eq_append_iff.1 h with ⟨v, rfl, hv⟩ | ⟨z, rfl, hz⟩
  · exact ⟨v, hv, fun inside => hw (List.mem_append_right x inside)⟩
  · cases z with
    | nil => exact ⟨[], hz.symm, List.not_mem_nil⟩
    | cons c z =>
      obtain ⟨rfl, -⟩ := List.cons_eq_cons.1 hz
      simp_all

theorem Reads.inside {t u : Trail} (h : p.Reads t u) (hp : p.staysBefore stop) {w r : List Char}
    (ht : t.rest = w ++ stop :: r) (hw : stop ∉ w) : ∃ v, u.rest = v ++ stop :: r ∧ stop ∉ v := by
  induction p generalizing t u w with
  | nothing => cases h; exact ⟨w, ht, hw⟩
  | one accepts =>
    obtain ⟨c, cs, hc, accepted, rfl⟩ := h
    have refused : ¬accepts stop := by simpa [staysBefore] using hp
    exact stretch_inside refused (x := [c]) (hc.symm.trans ht) (by simpa using accepted) hw
  | seq p q ihp ihq =>
    simp only [staysBefore, Bool.and_eq_true] at hp
    obtain ⟨v, hv, hu⟩ := h
    obtain ⟨x, hx, outside⟩ := ihp hv hp.1 ht hw
    exact ihq hu hp.2 hx outside
  | either p q ihp ihq =>
    simp only [staysBefore, Bool.and_eq_true] at hp
    exact h.elim (fun h => ihp h hp.1 ht hw) fun h => ihq h hp.2 ht hw
  | optional p ih =>
    rcases h with h | rfl
    · exact ih h hp ht hw
    · exact ⟨w, ht, hw⟩
  | many accepts | few accepts =>
    obtain ⟨x, rest, hx, all, rfl⟩ := h
    have refused : ¬accepts stop := by simpa [staysBefore] using hp
    exact stretch_inside refused (hx.symm.trans ht) all hw
  | boundary | finish => obtain ⟨-, rfl⟩ := h; exact ⟨w, ht, hw⟩
  | part p ih =>
    obtain ⟨v, hv, rfl⟩ := h
    exact ih (u := v) hv hp ht hw

theorem spelled_inside {w r x rest : List Char} (h : w ++ '>' :: r = x ++ rest)
    (hx : '>' ∉ x.map foldLetter) : ∃ v, w = x ++ v ∧ rest = v ++ '>' :: r := by
  rcases List.append_eq_append_iff.1 h with ⟨v, rfl, hv⟩ | ⟨v, rfl, hv⟩
  · cases v with
    | nil => exact ⟨[], by simp, hv.symm⟩
    | cons c v =>
      obtain ⟨rfl, -⟩ := List.cons_eq_cons.1 hv
      exact absurd (List.mem_map.2 ⟨'>', by simp, rfl⟩) hx
  · exact ⟨v, rfl, hv⟩

theorem Spells.exists_reads_iff {words : List (List Char)} (hp : p.Spells words)
    (inside : ∀ word ∈ words, '>' ∉ word) {t : Trail} {w r : List Char} (ht : t.rest = w ++ '>' :: r) :
    (∃ u, p.Reads t u) ↔ ∃ word ∈ words, word <+: w.map foldLetter := by
  simp only [hp t, ht]
  constructor
  · rintro ⟨_, x, rest, hx, spelled, rfl⟩
    obtain ⟨v, rfl, -⟩ := spelled_inside hx (inside _ spelled)
    exact ⟨_, spelled, by simp⟩
  · rintro ⟨word, listed, starts⟩
    obtain ⟨x, ⟨v, rfl⟩, rfl⟩ := List.prefix_map_iff.1 starts
    exact ⟨_, x, v ++ '>' :: r, List.append_assoc .., listed, rfl⟩

theorem exists_reads_name_append {name : String} (h : IsName name) {q : Pattern} {t : Trail}
    {w r : List Char} (ht : t.rest = w ++ '>' :: r) {P : List Char → Prop}
    (hq : ∀ x v, x.map foldLetter = name.toList → w = x ++ v →
      ((∃ u, q.Reads (t.past x (v ++ '>' :: r)) u) ↔ P v)) :
    (∃ u, (ignoringCase name ++ q).Reads t u) ↔
      name.toList <+: w.map foldLetter ∧ P (w.drop name.length) := by
  simp only [reads_append, reads_ignoringCase, ht, h.small]
  constructor
  · rintro ⟨u, _, ⟨x, rest, hx, same, rfl⟩, reads⟩
    obtain ⟨v, rfl, rfl⟩ := spelled_inside hx (same ▸ h.inside)
    have behind : (x ++ v).drop name.length = v := by
      rw [← String.length_toList, ← same, List.length_map, List.drop_left]
    rw [behind, List.map_append, same]
    exact ⟨List.prefix_append _ _, (hq x v same rfl).1 ⟨u, reads⟩⟩
  · rintro ⟨starts, goes⟩
    obtain ⟨x, ⟨v, rfl⟩, same⟩ := List.prefix_map_iff.1 starts
    rw [← String.length_toList, same, List.length_map, List.drop_left] at goes
    obtain ⟨u, reads⟩ := (hq x v same.symm rfl).2 goes
    exact ⟨u, _, ⟨x, v ++ '>' :: r, List.append_assoc .., same.symm, rfl⟩, reads⟩

section

variable {name : String} (h : IsName name) {q : Pattern} {t : Trail} {w r : List Char}
  (ht : t.rest = w ++ '>' :: r)

include h ht

theorem exists_reads_named_append {P : List Char → Prop}
    (hq : ∀ x v, w = x ++ v → ((∃ u, q.Reads (t.past x (v ++ '>' :: r)) u) ↔ P v)) :
    (∃ u, (ignoringCase name ++ (boundary ++ q)).Reads t u) ↔ Named name w ∧ P (w.drop name.length) := by
  rw [Named, and_assoc]
  refine exists_reads_name_append h ht (P := fun v => ¬isWordChar (v.headD '>') ∧ P v)
    fun x v same split => ?_
  have next : (v ++ '>' :: r).headD ' ' = v.headD '>' := by cases v <;> rfl
  rw [← hq x v split, ← h.isBoundary_iff same t.before, ← next]
  simp only [reads_append, Reads]
  constructor
  · rintro ⟨u, _, ⟨edge, rfl⟩, reads⟩
    exact ⟨edge, u, reads⟩
  · rintro ⟨edge, u, reads⟩
    exact ⟨u, _, ⟨edge, rfl⟩, reads⟩

theorem exists_reads_named : (∃ u, (ignoringCase name ++ boundary).Reads t u) ↔ Named name w := by
  refine exists_reads_name_append h ht (P := fun v => ¬isWordChar (v.headD '>'))
    fun x v same split => ?_
  have next : (v ++ '>' :: r).headD ' ' = v.headD '>' := by cases v <;> rfl
  rw [← h.isBoundary_iff same t.before, ← next]
  simp [Reads, Trail.past]

end

/-- The pattern reads any stretch of a tag.  Whether it tries long or short ones first is another
matter. -/
def SkimsTag (p : Pattern) : Prop := ∀ t u, p.Reads t u ↔ muchOfTag.Reads t u

theorem skimsTag_muchOfTag : muchOfTag.SkimsTag := fun _ _ => Iff.rfl

theorem skimsTag_littleOfTag : littleOfTag.SkimsTag := fun _ _ => Iff.rfl

section

variable {b : Pattern} (hb : b.SkimsTag) {t : Trail} {w r : List Char} (ht : t.rest = w ++ '>' :: r)
  (hw : '>' ∉ w)

include hb ht hw

theorem SkimsTag.reads_iff {u : Trail} :
    b.Reads t u ↔ ∃ x v, w = x ++ v ∧ u = t.past x (v ++ '>' :: r) := by
  rw [hb]
  constructor
  · rintro ⟨x, rest, hx, all, rfl⟩
    obtain ⟨v, rfl, -⟩ := stretch_inside (by simp) (hx.symm.trans ht) all hw
    rw [ht, ← List.append_assoc] at hx
    exact ⟨x, v, List.append_cancel_right hx, rfl⟩
  · rintro ⟨x, v, rfl, rfl⟩
    refine ⟨x, v ++ '>' :: r, by rw [ht, List.append_assoc], ?_, rfl⟩
    exact List.all_eq_true.2 fun c hc =>
      bne_iff_ne.2 (ne_of_mem_of_not_mem (List.mem_append_left v hc) hw)

theorem SkimsTag.reads_all : b.Reads t (t.past w ('>' :: r)) :=
  (hb.reads_iff ht hw).2 ⟨w, [], (List.append_nil w).symm, rfl⟩

theorem SkimsTag.exists_reads_append {words : List (List Char)}
    (inside : ∀ word ∈ words, '>' ∉ word) {q : Pattern} (hq : q.Spells words) :
    (∃ u, (b ++ q).Reads t u) ↔ ∃ word ∈ words, word <:+: w.map foldLetter := by
  simp only [reads_append, hb.reads_iff ht hw, infix_map_iff]
  constructor
  · rintro ⟨u, _, ⟨x, v, rfl, rfl⟩, reads⟩
    obtain ⟨word, listed, starts⟩ := (hq.exists_reads_iff inside rfl).1 ⟨u, reads⟩
    exact ⟨word, listed, v, List.suffix_append x v, starts⟩
  · rintro ⟨word, listed, v, ⟨x, rfl⟩, starts⟩
    obtain ⟨u, reads⟩ := (hq.exists_reads_iff inside (t := t.past x (v ++ '>' :: r)) rfl).2
      ⟨word, listed, starts⟩
    exact ⟨u, _, ⟨x, v, rfl, rfl⟩, reads⟩

end

theorem isSome_inTag?_iff {b : Pattern} (hb : b.SkimsTag) (ha : a.staysBefore '>') {w : List Char}
    (hw : '>' ∉ w) :
    ((a ++ b).inTag? w).isSome ↔ ∃ u, a.Reads ⟨1, '<', w ++ ['>'], []⟩ u := by
  constructor
  · intro found
    obtain ⟨m, hm⟩ := Option.isSome_iff_exists.1 found
    obtain ⟨_, reads, -⟩ := reads_of_run hm
    obtain ⟨u, hu, -⟩ := reads_append.1 reads
    exact ⟨u, hu⟩
  · rintro ⟨u, hu⟩
    obtain ⟨v, hv, outside⟩ := hu.inside ha rfl hw
    exact isSome_run (reads_append.2 ⟨u, hu, hb.reads_all hv outside⟩) (by simp [run, char])

theorem text_of_inTag? {w : List Char} {m : Match} (h : inner.inTag? w = some m) :
    m.text = tagText w := by
  obtain ⟨_, -, h⟩ := reads_of_run h
  obtain ⟨_, -, h⟩ := reads_of_run h
  exact (congrArg Match.text (Option.some.inj h)).symm

section

variable {qualifies : List Char → Prop} [DecidablePred qualifies] (tag : p.IsTag inner)
  (within : ∀ w, '>' ∉ w → ((inner.inTag? w).isSome ↔ qualifies w))

include tag within

theorem found_takenTags (before : Char) (t : List Char) :
    p.Found before t ((takenTags qualifies t).filterMap inner.inTag?) := by
  fun_induction takenTags qualifies t generalizing before with
  | case1 => exact .done
  | case2 c cs inside taken ih =>
    obtain ⟨rfl, closed, takes⟩ := taken
    obtain ⟨w, rest, rfl, hw⟩ := List.eq_append_cons_of_mem closed
    have content : inside = w := takeWhile_tag rest hw
    rw [content] at takes ih ⊢
    obtain ⟨m, hm⟩ := Option.isSome_iff_exists.1 ((within w hw).2 takes)
    rw [drop_tag] at ih ⊢
    have whole : '<' :: (w ++ '>' :: rest) = '<' :: (w ++ ['>']) ++ rest := by simp
    rw [List.filterMap_cons_some hm, whole]
    refine .take ?_ (text_of_inTag? hm) (ih _)
    rw [← whole]
    exact (matchAt?_tag tag before rest hw).trans hm
  | case3 c cs inside passed ih =>
    refine .pass (fun m hm => ?_) (ih c)
    obtain ⟨w, rest, hw, hcs⟩ := tag_of_matchAt? tag hm
    obtain ⟨rfl, rfl⟩ := List.cons_eq_cons.1 hcs
    have content : inside = w := takeWhile_tag rest hw
    rw [hcs, matchAt?_tag tag before rest hw] at hm
    have takes : qualifies w := (within w hw).1 (by rw [hm]; rfl)
    exact absurd ⟨rfl, by simp, content ▸ takes⟩ passed

theorem matchesIn_eq_takenTags (t : List Char) :
    p.matchesIn t = (takenTags qualifies t).filterMap inner.inTag? :=
  (found_takenTags tag within ' ' t).eq_matchesFrom.symm

theorem texts_matchesIn (t : List Char) :
    (p.matchesIn t).map Match.text = (takenTags qualifies t).map tagText := by
  rw [matchesIn_eq_takenTags tag within, List.map_filterMap, ← List.filterMap_eq_map]
  refine List.filterMap_congr fun s hs => ?_
  obtain ⟨hw, takes⟩ := mem_takenTags hs
  obtain ⟨m, hm⟩ := Option.isSome_iff_exists.1 ((within s hw).2 takes)
  rw [hm, Option.map_some, text_of_inTag? hm, Function.comp_apply]

end

end Pattern
end WcagAudit
