import Mathlib.Data.List.Pairwise
import WcagAudit.Proofs.Pattern.Search

namespace WcagAudit

structure Extent where
  start : Nat
  length : Nat
  deriving DecidableEq

namespace Extent

def stop (e : Extent) : Nat := e.start + e.length

def text (e : Extent) (t : List Char) : List Char := (t.drop e.start).take e.length

end Extent

structure Site where
  whole : Extent
  parts : List Extent
  deriving DecidableEq

def Site.found (s : Site) (t : List Char) : Match := ⟨s.whole.text t, s.parts.map (·.text t)⟩

/-- Where the characters read and the captured parts stand, on a way that has started `pos` characters
into a text and before `rest`. -/
def Trail.site (u : Trail) (pos : Nat) (rest : List Char) : Site where
  whole := ⟨pos, u.pos⟩
  parts := u.parts.map fun s => ⟨pos + (rest.length - s.start.length), s.length⟩

namespace Pattern

variable {p : Pattern} {α β : Type _}

def siteAt? (p : Pattern) (pos : Nat) (before : Char) (rest : List Char) : Option Site :=
  p.run ⟨0, before, rest, []⟩ fun u => some (u.site pos rest)

def sitesFrom (p : Pattern) : (skip pos : Nat) → (before : Char) → List Char → List Site
  | _, _, _, [] => []
  | skip + 1, pos, _, c :: cs => p.sitesFrom skip (pos + 1) c cs
  | 0, pos, before, c :: cs =>
    match p.siteAt? pos before (c :: cs) with
    | some s =>
      match s.whole.length with
      | 0 => p.sitesFrom 0 (pos + 1) c cs
      | taken + 1 => s :: p.sitesFrom taken (pos + 1) c cs
    | none => p.sitesFrom 0 (pos + 1) c cs

def sitesIn (p : Pattern) (t : List Char) : List Site := p.sitesFrom 0 0 ' ' t

theorem longest_map (accepts : Char → Bool) (k : Trail → Option α) (f : α → β) (t : Trail)
    (cs : List Char) : t.longest accepts (fun u => (k u).map f) cs = (t.longest accepts k cs).map f := by
  induction cs generalizing t with
  | nil => rfl
  | cons c cs ih =>
    simp only [Trail.longest, ih]
    cases t.advance c cs |>.longest accepts k cs <;> split <;> rfl

theorem shortest_map (accepts : Char → Bool) (k : Trail → Option α) (f : α → β) (t : Trail)
    (cs : List Char) : t.shortest accepts (fun u => (k u).map f) cs = (t.shortest accepts k cs).map f := by
  induction cs generalizing t with
  | nil => rfl
  | cons c cs ih =>
    simp only [Trail.shortest, ih]
    cases k t with
    | some r => rfl
    | none => by_cases hc : accepts c <;> simp [hc]

theorem run_map (p : Pattern) (t : Trail) (k : Trail → Option α) (f : α → β) :
    p.run t (fun u => (k u).map f) = (p.run t k).map f := by
  induction p generalizing t k with
  | nothing => rfl
  | one accepts =>
    simp only [run]
    split
    · split <;> rfl
    · rfl
  | seq p q ihp ihq => simp only [run, ihq, ihp]
  | either p q ihp ihq =>
    simp only [run, ihp, ihq]
    cases p.run t k <;> rfl
  | optional p ih =>
    simp only [run, ih]
    cases p.run t k <;> rfl
  | many accepts => exact longest_map ..
  | few accepts => exact shortest_map ..
  | boundary | finish =>
    simp only [run]
    split <;> rfl
  | part p ih => exact ih t fun u => k (u.capture t)

theorem Reads.parts_start {t u : Trail} (h : p.Reads t u) :
    ∀ s ∈ u.parts, s ∈ t.parts ∨ s.start <:+ t.rest := by
  induction p generalizing t u with
  | nothing => cases h; exact fun s hs => .inl hs
  | one accepts => obtain ⟨c, cs, -, -, rfl⟩ := h; exact fun s hs => .inl hs
  | seq p q ihp ihq =>
    obtain ⟨v, hv, hu⟩ := h
    obtain ⟨w, read, -⟩ := hv.past
    intro s hs
    rcases ihq hu s hs with earlier | later
    · exact ihp hv s earlier
    · exact .inr (later.trans ⟨w, read.symm⟩)
  | either p q ihp ihq => exact h.elim ihp ihq
  | optional p ih =>
    rcases h with h | rfl
    · exact ih h
    · exact fun s hs => .inl hs
  | many accepts | few accepts => obtain ⟨w, rest, -, -, rfl⟩ := h; exact fun s hs => .inl hs
  | boundary | finish => obtain ⟨-, rfl⟩ := h; exact fun s hs => .inl hs
  | part p ih =>
    obtain ⟨v, hv, rfl⟩ := h
    intro s hs
    rw [Trail.parts_capture, List.mem_append, List.mem_singleton] at hs
    rcases hs with hs | rfl
    · exact ih hv s hs
    · exact .inr List.suffix_rfl

theorem Reads.found_site {t rest : List Char} {pos : Nat} {before : Char} {u : Trail}
    (h : p.Reads ⟨0, before, rest, []⟩ u) (ht : t.drop pos = rest) :
    (u.site pos rest).found t = ⟨rest.take u.pos, u.parts.map Span.text⟩ := by
  have parts : ∀ s ∈ u.parts,
      Extent.text ⟨pos + (rest.length - s.start.length), s.length⟩ t = s.text := by
    intro s hs
    have behind : s.start <:+ rest := (h.parts_start s hs).resolve_left List.not_mem_nil
    rw [Extent.text, ← List.drop_drop, ht, ← List.suffix_iff_eq_drop.1 behind, Span.text]
  simp only [Site.found, Trail.site, Extent.text, ht, List.map_map, Match.mk.injEq, true_and]
  exact List.map_congr_left parts

theorem found_siteAt? {t rest : List Char} {pos : Nat} (before : Char) (ht : t.drop pos = rest) :
    (p.siteAt? pos before rest).map (·.found t) = p.matchAt? before rest := by
  have site : p.siteAt? pos before rest = _ := run_map p ⟨0, before, rest, []⟩ some (·.site pos rest)
  have found : p.matchAt? before rest = _ := run_map p ⟨0, before, rest, []⟩ some
    fun u => Match.mk (rest.take u.pos) (u.parts.map Span.text)
  rw [site, found]
  cases h : p.run ⟨0, before, rest, []⟩ some with
  | none => rfl
  | some u =>
    obtain ⟨v, hv, same⟩ := reads_of_run h
    cases same
    exact congrArg some (hv.found_site ht)

theorem extent_of_siteAt? {rest : List Char} {pos : Nat} {before : Char} {s : Site}
    (h : p.siteAt? pos before rest = some s) : s.whole.start = pos ∧ s.whole.length ≤ rest.length := by
  obtain ⟨u, hu, same⟩ := reads_of_run h
  obtain ⟨w, read, past⟩ := hu.past
  have length : u.pos = w.length := by rw [past]; simp
  simp only at read
  cases same
  refine ⟨rfl, ?_⟩
  rw [Trail.site, length, read, List.length_append]
  exact Nat.le_add_right ..

theorem length_text_found {t rest : List Char} {pos : Nat} {before : Char} {s : Site}
    (h : p.siteAt? pos before rest = some s) (ht : t.drop pos = rest) :
    (s.found t).text.length = s.whole.length := by
  obtain ⟨start, inside⟩ := extent_of_siteAt? h
  rw [Site.found, Extent.text, start, ht, List.length_take, Nat.min_eq_left inside]

theorem found_sitesFrom {t : List Char} {skip pos : Nat} {before : Char} {cs : List Char}
    (ht : t.drop pos = cs) :
    (p.sitesFrom skip pos before cs).map (·.found t) = p.matchesFrom skip before cs := by
  have next {pos : Nat} {c : Char} {cs : List Char} (h : t.drop pos = c :: cs) :
      t.drop (pos + 1) = cs := by
    rw [← List.drop_drop, h, List.drop_one, List.tail_cons]
  fun_induction sitesFrom p skip pos before cs with
  | case1 => simp [matchesFrom]
  | case2 skip pos _ c cs ih => exact ih (next ht)
  | case3 pos before c cs s hs empty ih =>
    have found := found_siteAt? (p := p) before ht
    have text : (s.found t).text = [] :=
      List.eq_nil_of_length_eq_zero ((length_text_found hs ht).trans empty)
    rw [hs] at found
    simp only [matchesFrom, ← found, Option.map_some, text, ih (next ht)]
  | case4 pos before c cs s hs taken filled ih =>
    have found := found_siteAt? (p := p) before ht
    have filled := (length_text_found hs ht).trans filled
    obtain ⟨d, w, text⟩ := List.exists_cons_of_length_eq_add_one filled
    have length : w.length = taken := by simpa [text] using filled
    rw [hs] at found
    simp only [matchesFrom, ← found, Option.map_some, text, length, List.map_cons, ih (next ht)]
  | case5 pos before c cs none ih =>
    have found := found_siteAt? (p := p) before ht
    rw [none] at found
    simp only [matchesFrom, ← found, Option.map_none, ih (next ht)]

theorem found_sitesIn (p : Pattern) (t : List Char) :
    (p.sitesIn t).map (·.found t) = p.matchesIn t :=
  found_sitesFrom rfl

def Stands (p : Pattern) (pos : Nat) (before : Char) (u v : List Char) (s : Site) : Prop :=
  p.siteAt? (pos + u.length) (u.getLastD before) v = some s ∧ s.whole.length ≠ 0

theorem stands_cons {pos : Nat} {before c : Char} {u v : List Char} {s : Site} :
    p.Stands pos before (c :: u) v s ↔ p.Stands (pos + 1) c u v s := by
  rw [Stands, Stands, List.length_cons, List.getLastD_cons, Nat.add_assoc, Nat.add_comm 1]

theorem exists_of_mem_sitesFrom {skip pos : Nat} {before : Char} {cs : List Char} {s : Site}
    (h : s ∈ p.sitesFrom skip pos before cs) :
    ∃ u v, cs = u ++ v ∧ skip ≤ u.length ∧ p.Stands pos before u v s := by
  have later {skip pos : Nat} {before c : Char} {cs : List Char} :
      (∃ u v, cs = u ++ v ∧ skip ≤ u.length ∧ p.Stands (pos + 1) c u v s) →
      ∃ u v, c :: cs = u ++ v ∧ skip + 1 ≤ u.length ∧ p.Stands pos before u v s := by
    rintro ⟨u, v, rfl, behind, stands⟩
    exact ⟨c :: u, v, rfl, Nat.succ_le_succ behind, stands_cons.2 stands⟩
  fun_induction sitesFrom p skip pos before cs with
  | case1 => cases h
  | case2 skip pos _ c cs ih => exact later (ih h)
  | case3 pos before c cs s' hs empty ih | case5 pos before c cs none ih =>
    obtain ⟨u, v, split, -, stands⟩ := later (ih h)
    exact ⟨u, v, split, Nat.zero_le _, stands⟩
  | case4 pos before c cs s' hs taken filled ih =>
    rcases List.mem_cons.1 h with rfl | h
    · exact ⟨[], c :: cs, rfl, Nat.le_refl 0, hs, by rw [filled]; exact Nat.succ_ne_zero taken⟩
    · obtain ⟨u, v, split, -, stands⟩ := later (ih h)
      exact ⟨u, v, split, Nat.zero_le _, stands⟩

theorem pairwise_sitesFrom (p : Pattern) (skip pos : Nat) (before : Char) (cs : List Char) :
    (p.sitesFrom skip pos before cs).Pairwise fun s s' => s.whole.stop ≤ s'.whole.start := by
  fun_induction sitesFrom p skip pos before cs with
  | case1 => exact .nil
  | case2 _ _ _ _ _ ih | case3 _ _ _ _ _ _ _ ih | case5 _ _ _ _ _ ih => exact ih
  | case4 pos before c cs s hs taken filled ih =>
    refine List.pairwise_cons.2 ⟨fun s' h => ?_, ih⟩
    obtain ⟨u, v, -, behind, stands, -⟩ := exists_of_mem_sitesFrom h
    rw [Extent.stop, (extent_of_siteAt? hs).1, (extent_of_siteAt? stands).1, filled]
    omega

/-- Where a match stands, the search has that site, or it is inside an earlier one. -/
theorem sitesFrom_covers {skip pos : Nat} {before : Char} {cs u v : List Char} {s : Site}
    (split : cs = u ++ v) (behind : skip ≤ u.length) (stands : p.Stands pos before u v s) :
    s ∈ p.sitesFrom skip pos before cs ∨ ∃ s' ∈ p.sitesFrom skip pos before cs,
      s'.whole.start < s.whole.start ∧ s.whole.start < s'.whole.stop := by
  -- By the steps of the search: a place further on is one of the search that goes on behind `c`, unless
  -- the match taken at `c` reaches over it.
  fun_induction sitesFrom p skip pos before cs generalizing u with
  | case1 =>
    obtain ⟨-, rfl⟩ := List.append_eq_nil_iff.1 split.symm
    exact absurd (Nat.le_zero.1 (extent_of_siteAt? stands.1).2) stands.2
  | case2 skip pos _ c cs ih =>
    cases u with
    | nil => cases behind
    | cons d u =>
      obtain ⟨rfl, rfl⟩ := List.cons_eq_cons.1 split
      exact ih rfl (Nat.le_of_succ_le_succ behind) (stands_cons.1 stands)
  | case3 pos before c cs s' hs empty ih =>
    cases u with
    | nil =>
      cases split
      cases hs.symm.trans stands.1
      exact absurd empty stands.2
    | cons d u =>
      obtain ⟨rfl, rfl⟩ := List.cons_eq_cons.1 split
      exact ih rfl (Nat.zero_le _) (stands_cons.1 stands)
  | case4 pos before c cs s' hs taken filled ih =>
    cases u with
    | nil =>
      cases split
      cases hs.symm.trans stands.1
      exact .inl (.head _)
    | cons d u =>
      obtain ⟨rfl, rfl⟩ := List.cons_eq_cons.1 split
      by_cases inside : u.length < taken
      · refine .inr ⟨s', .head _, ?_⟩
        rw [Extent.stop, (extent_of_siteAt? hs).1, (extent_of_siteAt? stands.1).1, filled,
          List.length_cons]
        omega
      · rcases ih rfl (Nat.le_of_not_lt inside) (stands_cons.1 stands) with h | ⟨s'', h, overlap⟩
        · exact .inl (.tail _ h)
        · exact .inr ⟨s'', .tail _ h, overlap⟩
  | case5 pos before c cs none ih =>
    cases u with
    | nil =>
      cases split
      cases none.symm.trans stands.1
    | cons d u =>
      obtain ⟨rfl, rfl⟩ := List.cons_eq_cons.1 split
      exact ih rfl (Nat.zero_le _) (stands_cons.1 stands)

theorem exists_of_mem_sitesIn {t : List Char} {s : Site} (h : s ∈ p.sitesIn t) :
    ∃ u v, t = u ++ v ∧ p.siteAt? u.length (u.getLastD ' ') v = some s := by
  obtain ⟨u, v, rfl, -, stands, -⟩ := exists_of_mem_sitesFrom h
  rw [Nat.zero_add] at stands
  exact ⟨u, v, rfl, stands⟩

theorem pairwise_sitesIn (p : Pattern) (t : List Char) :
    (p.sitesIn t).Pairwise fun s s' => s.whole.stop ≤ s'.whole.start :=
  pairwise_sitesFrom ..

theorem apart_of_mem_sitesIn {t : List Char} {s s' : Site} (h : s ∈ p.sitesIn t)
    (h' : s' ∈ p.sitesIn t) (other : s ≠ s') :
    s.whole.stop ≤ s'.whole.start ∨ s'.whole.stop ≤ s.whole.start := by
  let Apart (s s' : Site) : Prop := s.whole.stop ≤ s'.whole.start ∨ s'.whole.stop ≤ s.whole.start
  have : Std.Symm Apart := ⟨fun _ _ => Or.symm⟩
  have apart : (p.sitesIn t).Pairwise Apart := (pairwise_sitesIn p t).imp Or.inl
  exact apart.forall h h' other

theorem sitesIn_covers {u v : List Char} {s : Site}
    (stands : p.siteAt? u.length (u.getLastD ' ') v = some s) (filled : s.whole.length ≠ 0) :
    s ∈ p.sitesIn (u ++ v) ∨ ∃ s' ∈ p.sitesIn (u ++ v),
      s'.whole.start < s.whole.start ∧ s.whole.start < s'.whole.stop := by
  rw [← Nat.zero_add u.length] at stands
  exact sitesFrom_covers rfl (Nat.zero_le _) ⟨stands, filled⟩

theorem exists_between {u v u' v' : List Char} (text : u ++ v = u' ++ v') (later : u'.length < u.length) :
    ∃ w, u = u' ++ w ∧ w ≠ [] ∧ v' = w ++ v := by
  have first : u' <+: u := List.prefix_of_prefix_length_le (List.prefix_append u' v')
    (text ▸ List.prefix_append u v) (Nat.le_of_lt later)
  obtain ⟨w, rfl⟩ := first
  rw [List.append_assoc] at text
  refine ⟨w, rfl, ?_, (List.append_cancel_left text).symm⟩
  rintro rfl
  simp at later

theorem matchesIn_covers {u v : List Char} {m : Match} (h : p.matchAt? (u.getLastD ' ') v = some m)
    (text : m.text ≠ []) :
    m ∈ p.matchesIn (u ++ v) ∨ ∃ m' ∈ p.matchesIn (u ++ v), ∃ u₁ u₂, u = u₁ ++ u₂ ∧ u₂ ≠ [] ∧
      p.matchAt? (u₁.getLastD ' ') (u₂ ++ v) = some m' ∧ u₂.length < m'.text.length := by
  have found := found_siteAt? (p := p) (t := u ++ v) (u.getLastD ' ') List.drop_left
  obtain ⟨s, hs, rfl⟩ := Option.map_eq_some_iff.1 (found.trans h)
  have length := length_text_found hs List.drop_left
  have filled : s.whole.length ≠ 0 := by
    rw [← length]
    exact mt List.eq_nil_of_length_eq_zero text
  rw [← found_sitesIn]
  rcases sitesIn_covers hs filled with here | ⟨s', hs', before, reaches⟩
  · exact .inl (List.mem_map_of_mem here)
  · obtain ⟨u₁, v', split, at'⟩ := exists_of_mem_sitesIn hs'
    obtain ⟨start, -⟩ := extent_of_siteAt? at'
    rw [start, (extent_of_siteAt? hs).1] at before
    obtain ⟨u₂, rfl, filled', rfl⟩ := exists_between split before
    rw [split] at hs' ⊢
    have found' := found_siteAt? (p := p) (t := u₁ ++ (u₂ ++ v)) (u₁.getLastD ' ') List.drop_left
    have length' := length_text_found at' (t := u₁ ++ (u₂ ++ v)) List.drop_left
    rw [at'] at found'
    refine .inr ⟨_, List.mem_map_of_mem hs', u₁, u₂, rfl, filled', found'.symm, ?_⟩
    rw [Extent.stop, start, (extent_of_siteAt? hs).1, List.length_append] at reaches
    rw [length']
    omega

end Pattern
end WcagAudit
