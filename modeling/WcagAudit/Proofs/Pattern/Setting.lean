import WcagAudit.Proofs.Pattern.Quote

namespace WcagAudit

theorem eq_of_append_cons {d : Char} {x y x' y' : List Char} (h : x ++ d :: y = x' ++ d :: y') (hx : d ∉ x)
    (hx' : d ∉ x') : x = x' ∧ y = y' := by
  rcases List.append_eq_append_iff.1 h with ⟨z, rfl, hz⟩ | ⟨z, rfl, hz⟩ <;> cases z with
  | nil => simp_all
  | cons c z =>
    obtain ⟨rfl, -⟩ := List.cons_eq_cons.1 hz
    simp at hx hx'

theorem Trail.text_capture {t v : Trail} {x : List Char} (read : t.rest = x ++ v.rest)
    (pos : v.pos = t.pos + x.length) : (v.capture t).parts.map Span.text = v.parts.map Span.text ++ [x] := by
  rw [parts_capture, List.map_append, List.map_singleton, Span.text, pos, Nat.add_sub_cancel_left, read,
    List.take_left]

namespace Pattern

/-- A pattern for a key, an equals sign and a value in quotes: what its opening reads and captures, and which
values it takes. -/
structure SettingSearch where
  opening : Pattern
  value : Pattern
  key : Char → List Char → Bool
  captured : List Char → List (List Char)
  opening_sound {t u : Trail} : opening.Reads t u → ∃ k, t.rest = k ++ '=' :: u.rest ∧ key t.before k ∧
    u.parts.map Span.text = t.parts.map Span.text ++ captured k
  opening_complete {t : Trail} {k rest : List Char} : t.rest = k ++ '=' :: rest → key t.before k →
    ∃ u, opening.Reads t u ∧ u.rest = rest
  value_sound {t u : Trail} : value.Reads t u →
    ∃ v rest, t.rest = v ++ rest ∧ v.all (!isQuote ·) ∧ u = t.past v rest
  value_complete {t : Trail} {v rest : List Char} : t.rest = v ++ rest → v ≠ [] → v.all (!isQuote ·) →
    value.Reads t (t.past v rest)
  filled {before : Char} : ¬key before []
  apart {before : Char} {k : List Char} : key before k → ∀ d ∈ ['=', '"', ' ', '>'], d ∉ k

namespace SettingSearch

variable (s : SettingSearch)

def pattern : Pattern := s.opening ++ quote ++ part s.value ++ quote

variable {s} {before : Char} {cs k v rest : List Char} {m : Match}

theorem exists_of_matchAt? (h : s.pattern.matchAt? before cs = some m) :
    ∃ k q v q' rest, cs = k ++ '=' :: q :: (v ++ q' :: rest) ∧ s.key before k ∧ isQuote q ∧ isQuote q' ∧
      v.all (!isQuote ·) ∧ m = ⟨k ++ '=' :: q :: (v ++ [q']), s.captured k ++ [v]⟩ := by
  obtain ⟨u, hu, text, parts⟩ := reads_of_matchAt? h
  simp only [pattern, reads_append] at hu
  obtain ⟨_, ⟨_, ⟨x, hx, q, cs', hq, opens, rfl⟩, _, hv, rfl⟩, q', rest, hq', closes, rfl⟩ := hu
  obtain ⟨k, split, key, named⟩ := s.opening_sound hx
  obtain ⟨v, rest', hcs', plain, rfl⟩ := s.value_sound hv
  simp only [Trail.rest_capture, Trail.rest_past, Trail.rest_advance] at hq' hcs'
  subst hq' hcs'
  have whole : cs = k ++ '=' :: q :: (v ++ q' :: rest) := hq ▸ split
  have captured : m.parts = s.captured k ++ [v] := by
    rw [parts, Trail.parts_advance, Trail.text_capture (x := v) rfl rfl, Trail.parts_past,
      Trail.parts_advance, named]
    rfl
  have read : m.text = k ++ '=' :: q :: (v ++ [q']) := by
    have behind : m.text ++ rest = k ++ '=' :: q :: (v ++ [q']) ++ rest := by
      simpa [whole] using text.symm
    exact List.append_cancel_right behind
  exact ⟨k, q, v, q', rest, whole, key, opens, closes, plain, by rw [← captured, ← read]⟩

theorem isSome_matchAt? (key : s.key before k) (filled : v ≠ []) (plain : v.all (!isQuote ·)) :
    (s.pattern.matchAt? before (k ++ '=' :: '"' :: (v ++ '"' :: rest))).isSome := by
  rw [isSome_matchAt?_iff]
  simp only [pattern, reads_append]
  obtain ⟨x, hx, hrest⟩ := s.opening_complete (t := ⟨0, before, _, []⟩) rfl key
  have value := s.value_complete (t := x.advance '"' (v ++ '"' :: rest)) rfl filled plain
  exact ⟨_, _, ⟨_, ⟨x, hx, '"', _, hrest, rfl, rfl⟩, _, value, rfl⟩, '"', rest, rfl, rfl, rfl⟩

theorem matchAt?_setting (key : s.key before k) (filled : v ≠ []) (plain : v.all (!isQuote ·)) :
    s.pattern.matchAt? before (k ++ '=' :: '"' :: (v ++ '"' :: rest)) =
      some ⟨k ++ '=' :: '"' :: (v ++ ['"']), s.captured k ++ [v]⟩ := by
  have read : (s.pattern.matchAt? before (k ++ '=' :: '"' :: (v ++ '"' :: rest))).isSome :=
    isSome_matchAt? key filled plain
  obtain ⟨m, hm⟩ := Option.isSome_iff_exists.1 read
  obtain ⟨k', q, v', q', rest', split, key', -, closes, plain', rfl⟩ := exists_of_matchAt? hm
  obtain ⟨rfl, setting⟩ := eq_of_append_cons split (s.apart key '=' (.head _)) (s.apart key' '=' (.head _))
  obtain ⟨rfl, quoted⟩ := List.cons_eq_cons.1 setting
  have same : v = v' := by
    have value := congrArg (List.takeWhile (!isQuote ·)) quoted
    rwa [takeWhile_unquoted plain rfl, takeWhile_unquoted plain' closes] at value
  subst same
  obtain ⟨rfl, -⟩ := List.cons_eq_cons.1 (List.append_cancel_left quoted)
  exact hm

def keyIn (s : SettingSearch) : Char → List Char → Option (List Char)
  | _, [] => none
  | before, c :: cs => if s.key before (c :: cs) then some (c :: cs) else s.keyIn c cs

theorem isSome_keyIn_iff {name : List Char} :
    (s.keyIn before name).isSome ↔ ∃ u k, name = u ++ k ∧ s.key (u.getLastD before) k := by
  induction name generalizing before with
  | nil =>
    refine iff_of_false Bool.noConfusion ?_
    rintro ⟨u, k, empty, key⟩
    obtain ⟨rfl, rfl⟩ := List.append_eq_nil_iff.1 empty.symm
    exact s.filled key
  | cons c name ih =>
    rw [keyIn]
    split
    · next key => exact iff_of_true rfl ⟨[], c :: name, rfl, key⟩
    · next other =>
      rw [ih]
      constructor
      · rintro ⟨u, k, rfl, key⟩
        exact ⟨c :: u, k, rfl, by rwa [List.getLastD_cons]⟩
      · rintro ⟨u, k, split, key⟩
        cases u with
        | nil => exact absurd (split ▸ key) other
        | cons d u =>
          obtain ⟨rfl, rfl⟩ := List.cons_eq_cons.1 split
          exact ⟨u, k, rfl, by rwa [List.getLastD_cons] at key⟩

def hit? (s : SettingSearch) (name value : List Char) : Option Match :=
  (s.keyIn ' ' name).map fun k => ⟨k ++ '=' :: '"' :: (value ++ ['"']), s.captured k ++ [value]⟩

theorem matchAt?_eq_none (h : ∀ k rest, cs = k ++ '=' :: rest → ¬s.key before k) :
    s.pattern.matchAt? before cs = none := by
  refine Option.eq_none_iff_forall_ne_some.2 fun m hm => ?_
  obtain ⟨k, q, v, q', rest, split, key, -⟩ := exists_of_matchAt? hm
  exact h k _ split key

theorem matchAt?_end {y : List Char} (hy : '=' ∉ y) {d : Char} (hd : d ∈ ['"', ' ', '>']) :
    s.pattern.matchAt? before (y ++ d :: cs) = none := by
  refine matchAt?_eq_none fun k rest split key => ?_
  have lacks : d ∉ k := s.apart key d (.tail _ hd)
  have front : '=' ∉ y ++ [d] := by
    rw [List.mem_append, List.mem_singleton, not_or]
    exact ⟨hy, fun h => absurd (h ▸ hd) (by decide)⟩
  -- The equals sign is behind the end, so the end is in the key.
  have split : (y ++ [d]) ++ cs = k ++ '=' :: rest := by simpa using split
  rcases List.append_eq_append_iff.1 split with ⟨z, rfl, -⟩ | ⟨z, whole, hz⟩
  · exact lacks (by simp)
  · cases z with
    | nil =>
      rw [List.append_nil] at whole
      exact lacks (whole ▸ by simp)
    | cons c z =>
      obtain ⟨rfl, -⟩ := List.cons_eq_cons.1 hz
      exact front (whole ▸ by simp)

theorem matchAt?_equals : s.pattern.matchAt? before ('=' :: cs) = none := by
  refine matchAt?_eq_none fun k rest split key => ?_
  cases k with
  | nil => exact s.filled key
  | cons c k =>
    obtain ⟨rfl, -⟩ := List.cons_eq_cons.1 split
    exact s.apart key '=' (.head _) (.head _)

theorem matchesFrom_of_none {c : Char} (h : s.pattern.matchAt? before (c :: cs) = none) :
    s.pattern.matchesFrom 0 before (c :: cs) = s.pattern.matchesFrom 0 c cs := by
  simp only [matchesFrom, h]

theorem matchesFrom_end {y : List Char} (hy : '=' ∉ y) {d : Char} (hd : d ∈ ['"', ' ', '>']) :
    s.pattern.matchesFrom 0 before (y ++ d :: cs) = s.pattern.matchesFrom 0 d cs := by
  induction y generalizing before with
  | nil => exact matchesFrom_of_none (matchAt?_end hy hd)
  | cons c y ih =>
    exact (matchesFrom_of_none (matchAt?_end hy hd)).trans (ih fun h => hy (List.mem_cons_of_mem c h))

variable {name : List Char} (letters : '=' ∉ name) (filled : v ≠ []) (plain : v.all (!isQuote ·))
  (single : '=' ∉ v)

include letters filled plain single

theorem matchesFrom_setting :
    s.pattern.matchesFrom 0 ' ' (name ++ '=' :: '"' :: (v ++ '"' :: rest)) =
      (s.hit? name v).toList ++ s.pattern.matchesFrom 0 '"' rest := by
  rw [hit?]
  generalize ' ' = before
  induction name generalizing before with
  | nil =>
    -- No key has been found, and the value holds no equals sign that one could end in front of.
    have quoted : '=' ∉ '"' :: v := by simpa using single
    rw [List.nil_append, matchesFrom_of_none matchAt?_equals, ← List.cons_append,
      matchesFrom_end quoted (.head _)]
    rfl
  | cons c name ih =>
    rw [keyIn]
    split
    · next key =>
      have split (rest : List Char) : c :: name ++ '=' :: '"' :: (v ++ '"' :: rest) =
          (c :: name ++ '=' :: '"' :: (v ++ ['"'])) ++ rest := by simp
      have found : s.pattern.matchAt? before (c :: name ++ '=' :: '"' :: (v ++ '"' :: rest)) = some _ :=
        matchAt?_setting key filled plain
      rw [split] at found ⊢
      have last : (c :: name ++ '=' :: '"' :: (v ++ ['"'])).getLastD before = '"' := by
        rw [getLastD_append, List.getLastD_cons, List.getLastD_cons, List.getLastD_concat]
      rw [matchesFrom_match found rfl (List.append_ne_nil_of_left_ne_nil (List.cons_ne_nil c name) _), last]
      rfl
    · next other =>
      have none : s.pattern.matchAt? before (c :: name ++ '=' :: '"' :: (v ++ '"' :: rest)) = .none := by
        refine matchAt?_eq_none fun k rest split key => other ?_
        obtain ⟨rfl, -⟩ := eq_of_append_cons split letters (s.apart key '=' (.head _))
        exact key
      exact (matchesFrom_of_none none).trans (ih (fun h => letters (List.mem_cons_of_mem c h)) c)

end SettingSearch

end Pattern

end WcagAudit
