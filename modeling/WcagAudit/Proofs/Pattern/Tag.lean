import WcagAudit.Proofs.Pattern.Search
import WcagAudit.Proofs.Text.Closed
import WcagAudit.Rule.Vocabulary

namespace WcagAudit

/-- Two trails before the same stretch of text, which ends at the next `stop` at position `n`, and
with the same captured texts. -/
structure Trail.Alike (stop : Char) (n : Nat) (t t' : Trail) : Prop where
  pos : t.pos = t'.pos
  before : t.before = t'.before
  parts : t.parts.map Span.text = t'.parts.map Span.text
  rest : ∃ w r r', stop ∉ w ∧ t.rest = w ++ stop :: r ∧ t'.rest = w ++ stop :: r' ∧
    t.pos + w.length = n

namespace Trail

variable {stop : Char} {n : Nat} {t t' u u' : Trail} {α : Type _}

theorem Alike.advance {c : Char} {w : List Char} (r r' : List Char) (h : t.Alike stop n t')
    (hw : stop ∉ w) (hn : t.pos + (w.length + 1) = n) :
    (t.advance c (w ++ stop :: r)).Alike stop n (t'.advance c (w ++ stop :: r')) where
  pos := congrArg (· + 1) h.pos
  before := rfl
  parts := h.parts
  rest := ⟨w, r, r', hw, rfl, rfl, by rw [pos_advance]; omega⟩

theorem Alike.capture (h : t.Alike stop n t') (hu : u.Alike stop n u') :
    (u.capture t).Alike stop n (u'.capture t') where
  pos := hu.pos
  before := hu.before
  rest := hu.rest
  parts := by
    obtain ⟨w, r, r', -, ht, ht', hn⟩ := h.rest
    obtain ⟨x, -, -, -, -, -, hx⟩ := hu.rest
    have inside : u.pos - t.pos ≤ w.length := by omega
    simp only [parts_capture, List.map_append, hu.parts, List.map_cons, List.map_nil, Span.text,
      ← h.pos, ← hu.pos, ht, ht', List.take_append_of_le_length inside]

theorem longest_alike {accepts : Char → Bool} {k k' : Trail → Option α} (ha : ¬accepts stop)
    (hk : ∀ u u', u.Alike stop n u' → k u = k' u') (h : t.Alike stop n t') :
    t.longest accepts k t.rest = t'.longest accepts k' t'.rest := by
  obtain ⟨w, r, r', hw, ht, ht', hn⟩ := h.rest
  rw [ht, ht']
  induction w generalizing t t' with
  | nil => simpa only [List.nil_append, longest, if_neg ha] using hk t t' h
  | cons c w ih =>
    rw [List.mem_cons, not_or] at hw
    have next : (t.advance c (w ++ stop :: r)).Alike stop n (t'.advance c (w ++ stop :: r')) :=
      h.advance r r' hw.2 hn
    simp only [List.cons_append, longest]
    rw [ih next hw.2 rfl rfl (by rw [pos_advance, ← hn, List.length_cons]; omega), hk t t' h]

theorem shortest_alike {accepts : Char → Bool} {k k' : Trail → Option α} (ha : ¬accepts stop)
    (hk : ∀ u u', u.Alike stop n u' → k u = k' u') (h : t.Alike stop n t') :
    t.shortest accepts k t.rest = t'.shortest accepts k' t'.rest := by
  obtain ⟨w, r, r', hw, ht, ht', hn⟩ := h.rest
  rw [ht, ht']
  induction w generalizing t t' with
  | nil => simp only [List.nil_append, shortest, if_neg ha, hk t t' h]
  | cons c w ih =>
    rw [List.mem_cons, not_or] at hw
    have next : (t.advance c (w ++ stop :: r)).Alike stop n (t'.advance c (w ++ stop :: r')) :=
      h.advance r r' hw.2 hn
    simp only [List.cons_append, shortest]
    rw [ih next hw.2 rfl rfl (by rw [pos_advance, ← hn, List.length_cons]; omega), hk t t' h]

end Trail

namespace Pattern

variable {α : Type _} {p inner : Pattern}

/-- The pattern neither reads the next `stop` nor looks behind it. -/
def staysBefore (stop : Char) : Pattern → Bool
  | nothing | boundary | finish => true
  | one accepts | many accepts | few accepts => !accepts stop
  | seq p q | either p q => p.staysBefore stop && q.staysBefore stop
  | optional p | part p => p.staysBefore stop

theorem run_alike {stop : Char} {n : Nat} {t t' : Trail} {k k' : Trail → Option α}
    (hp : p.staysBefore stop) (h : t.Alike stop n t')
    (hk : ∀ u u', u.Alike stop n u' → k u = k' u') : p.run t k = p.run t' k' := by
  induction p generalizing t t' k k' with
  | nothing => exact hk t t' h
  | one accepts =>
    obtain ⟨w, r, r', hw, ht, ht', hn⟩ := h.rest
    simp only [run, ht, ht']
    cases w with
    | nil => simp_all [staysBefore]
    | cons c w =>
      rw [List.mem_cons, not_or] at hw
      simp only [List.cons_append]
      rw [hk _ _ (h.advance r r' hw.2 hn)]
  | seq p q ihp ihq =>
    simp only [staysBefore, Bool.and_eq_true] at hp
    exact ihp hp.1 h fun u u' hu => ihq hp.2 hu hk
  | either p q ihp ihq =>
    simp only [staysBefore, Bool.and_eq_true] at hp
    simp only [run, ihp hp.1 h hk, ihq hp.2 h hk]
  | optional p ih => simp only [run, ih hp h hk, hk t t' h]
  | many accepts => exact Trail.longest_alike (by simpa [staysBefore] using hp) hk h
  | few accepts => exact Trail.shortest_alike (by simpa [staysBefore] using hp) hk h
  | boundary =>
    obtain ⟨w, r, r', -, ht, ht', -⟩ := h.rest
    have next : t.rest.headD ' ' = t'.rest.headD ' ' := by rw [ht, ht']; cases w <;> rfl
    simp only [run, next, h.before, hk t t' h]
  | finish =>
    obtain ⟨w, r, r', -, ht, ht', -⟩ := h.rest
    simp [run, ht, ht']
  | part p ih => exact ih hp h fun u u' hu => hk _ _ (h.capture hu)

structure IsTag (p inner : Pattern) : Prop where
  inside : inner.staysBefore '>'
  run_eq : ∀ (t : Trail) (k : Trail → Option Match),
    p.run t k = (char '<').run t fun u => inner.run u fun v => (char '>').run v k

def inTag? (inner : Pattern) (w : List Char) : Option Match :=
  inner.run ⟨1, '<', w ++ ['>'], []⟩ fun v =>
    (char '>').run v fun u => some ⟨'<' :: w ++ ['>'], u.parts.map Span.text⟩

theorem matchAt?_tag (h : p.IsTag inner) (before : Char) {w : List Char} (rest : List Char)
    (hw : '>' ∉ w) : p.matchAt? before ('<' :: w ++ '>' :: rest) = inner.inTag? w := by
  unfold matchAt? inTag?
  rw [h.run_eq]
  have opened : Trail.Alike '>' (w.length + 1) ⟨1, '<', w ++ '>' :: rest, []⟩
      ⟨1, '<', w ++ ['>'], []⟩ :=
    ⟨rfl, rfl, rfl, w, rest, [], hw, rfl, rfl, Nat.add_comm 1 _⟩
  -- What stands behind the closing bracket is never looked at, so it may be left out.
  refine run_alike h.inside opened fun v v' alike => ?_
  obtain ⟨x, r, r', hx, hv, hv', hn⟩ := alike.rest
  cases x with
  | nil =>
    have text : (w ++ '>' :: rest).take v.pos = w ++ ['>'] := by
      rw [show v.pos = (w ++ ['>']).length by simpa using hn, List.append_cons w '>' rest,
        List.take_left]
    simp [run, char, hv, hv', text, alike.parts]
  | cons c x =>
    have other : c ≠ '>' := fun hc => hx (hc ▸ List.mem_cons_self)
    simp [run, char, hv, hv', other]

theorem tag_of_matchAt? (h : p.IsTag inner) {before : Char} {cs : List Char} {m : Match}
    (hm : p.matchAt? before cs = some m) : ∃ w rest, '>' ∉ w ∧ cs = '<' :: w ++ '>' :: rest := by
  unfold matchAt? at hm
  rw [h.run_eq] at hm
  obtain ⟨u, ⟨c, cs, rfl, hc, rfl⟩, hm⟩ := reads_of_run hm
  obtain ⟨v, hv, hm⟩ := reads_of_run hm
  obtain ⟨_, ⟨d, rest, hrest, hd, -⟩, -⟩ := reads_of_run hm
  obtain ⟨x, hx, -⟩ := hv.past
  obtain rfl : c = '<' := by simpa using hc
  obtain rfl : d = '>' := by simpa using hd
  simp only [Trail.rest_advance, hrest] at hx
  have closed : '>' ∈ cs := by simp [hx]
  obtain ⟨w, rest, rfl, hw⟩ := List.eq_append_cons_of_mem closed
  exact ⟨w, rest, hw, rfl⟩

theorem matchAt?_before (h : p.IsTag inner) (before before' : Char) (cs : List Char) :
    p.matchAt? before cs = p.matchAt? before' cs := by
  by_cases tag : ∃ w rest, '>' ∉ w ∧ cs = '<' :: w ++ '>' :: rest
  · obtain ⟨w, rest, hw, rfl⟩ := tag
    rw [matchAt?_tag h before rest hw, matchAt?_tag h before' rest hw]
  · have none (b : Char) : p.matchAt? b cs = none :=
      Option.eq_none_iff_forall_ne_some.2 fun _ hm => tag (tag_of_matchAt? h hm)
    rw [none, none]

theorem matchAt?_append (h : p.IsTag inner) (before : Char) {c : Char} {cs : List Char}
    (closed : Closed (c :: cs)) (t : List Char) :
    p.matchAt? before (c :: cs ++ t) = p.matchAt? before (c :: cs) := by
  by_cases hc : c = '<'
  · subst hc
    obtain ⟨w, rest, rfl, hw⟩ := List.eq_append_cons_of_mem ((closed_cons.1 closed).1 rfl)
    have split : '<' :: (w ++ '>' :: rest) ++ t = '<' :: w ++ '>' :: (rest ++ t) := by simp
    rw [split, matchAt?_tag h before _ hw]
    exact (matchAt?_tag h before rest hw).symm
  · have none (cs : List Char) : p.matchAt? before (c :: cs) = none := by
      refine Option.eq_none_iff_forall_ne_some.2 fun _ hm => hc ?_
      obtain ⟨w, rest, -, hcs⟩ := tag_of_matchAt? h hm
      exact (List.cons_eq_cons.1 hcs).1
    rw [List.cons_append, none, none]

theorem matchesIn_of_not_mem (h : p.IsTag inner) {t : List Char} (none : '<' ∉ t) :
    p.matchesIn t = [] := by
  refine List.eq_nil_iff_forall_not_mem.2 fun m hm => none ?_
  obtain ⟨u, v, rfl, found⟩ := (found_matchesIn t).mem hm
  obtain ⟨w, rest, -, rfl⟩ := tag_of_matchAt? h found
  simp

theorem matchesFrom_before (h : p.IsTag inner) (before before' : Char) (cs : List Char) :
    p.matchesFrom 0 before cs = p.matchesFrom 0 before' cs := by
  cases cs with
  | nil => rfl
  | cons c cs => simp only [matchesFrom, matchAt?_before h before before']

/-- A search in a text whose first part is closed finds what it finds in each part. -/
theorem matchesIn_append (h : p.IsTag inner) {s : List Char} (closed : Closed s) (t : List Char) :
    p.matchesIn (s ++ t) = p.matchesIn s ++ p.matchesIn t := by
  have joined {before : Char} {s : List Char} {ms : List Match} (found : p.Found before s ms)
      (closed : Closed s) : p.Found before (s ++ t) (ms ++ p.matchesIn t) := by
    induction found with
    | @done before =>
      rw [matchesIn, matchesFrom_before h ' ' before]
      exact found_matchesFrom before t
    | @pass before c cs ms none _ ih =>
      refine .pass (fun m hm => none m ?_) (ih (closed_cons.1 closed).2)
      exact (matchAt?_append h before closed t).symm.trans hm
    | @take before c w cs m ms hm text _ ih =>
      have further := ih closed.of_append
      rw [List.append_assoc]
      refine .take ?_ text further
      rw [← List.append_assoc]
      exact (matchAt?_append h before closed t).trans hm
  exact ((joined (found_matchesIn s) closed).eq_matchesFrom).symm

end Pattern
end WcagAudit
