import WcagAudit.Proofs.Json.Numerals
import WcagAudit.Proofs.Json.Strings

namespace WcagAudit.Json

/-- The values that have a text of their own. -/
inductive Proper : Json → Prop
  | null : Proper null
  | bool (b : Bool) : Proper (bool b)
  | number {n : Numeral} : n.Proper → Proper (number n)
  | string (s : String) : Proper (string s)
  | array {items : List Json} : (∀ x ∈ items, Proper x) → Proper (array items)
  | object {members : List (String × Json)} : (∀ m ∈ members, Proper m.2) → Proper (object members)

theorem skipSpace_newline (indent : Nat) (t : List Char) :
    skipSpace (newline indent ++ t) = skipSpace t := by
  have spaces : skipSpace (List.replicate indent ' ' ++ t) = skipSpace t := by
    rw [skipSpace, List.dropWhile_append_of_pos]
    · rfl
    · intro c hc
      rw [List.eq_of_mem_replicate hc]
      rfl
  exact spaces

theorem skipSpace_cons {c : Char} (h : ¬isSpace c) (t : List Char) : skipSpace (c :: t) = c :: t :=
  List.dropWhile_cons_of_neg h

theorem closes_cons {c : Char} (h : ¬c.isDigit ∧ c ≠ '.' ∧ c ≠ 'e' ∧ c ≠ 'E') (t : List Char) :
    Closes (c :: t) := by
  rintro d ⟨⟩
  exact h

theorem closes_comma (t : List Char) : Closes (',' :: t) := closes_cons (by decide) t

theorem closes_newline (indent : Nat) (t : List Char) : Closes (newline indent ++ t) :=
  closes_cons (by decide) _

theorem exists_head {j : Json} (h : j.Proper) (indent : Nat) :
    ∃ c t, prettyAt indent j = c :: t ∧ ¬isSpace c ∧ c ≠ ']' := by
  cases h with
  | null => exact ⟨_, _, rfl, by decide⟩
  | bool b => cases b <;> exact ⟨_, _, rfl, by decide⟩
  | string s => exact ⟨_, _, rfl, by decide⟩
  | @array items _ => cases items <;> exact ⟨_, _, rfl, by decide⟩
  | @object members _ => cases members <;> exact ⟨_, _, rfl, by decide⟩
  | number h =>
    obtain ⟨c, t, text, minus | digit⟩ := exists_head_text h
    · exact ⟨c, t, text, by rw [minus]; decide⟩
    · refine ⟨c, t, text, ?_, ?_⟩
      · intro space
        simp only [isSpace, Bool.or_eq_true, beq_iff_eq] at space
        obtain ((rfl | rfl) | rfl) | rfl := space <;> cases digit
      · rintro rfl
        cases digit

theorem skipSpace_value {j : Json} (h : j.Proper) (outer indent : Nat) (rest : List Char) :
    skipSpace (newline outer ++ (prettyAt indent j ++ rest)) = prettyAt indent j ++ rest := by
  obtain ⟨c, t, head, notSpace, -⟩ := exists_head h indent
  rw [skipSpace_newline, head]
  exact skipSpace_cons notSpace _

section

variable {fuel : Nat} {t inner : List Char}

theorem value?_number {c : Char} (head : c = '-' ∨ c.isDigit) (text : skipSpace t = c :: inner) :
    value? (fuel + 1) t = (numeral? (c :: inner)).map fun (n, rest) => (number n, rest) := by
  rw [value?, text]
  split <;> first | rfl | (next h => cases h; obtain h | h := head <;> cases h)

theorem value?_string (text : skipSpace t = '"' :: inner) :
    value? (fuel + 1) t =
      (stringBody? inner).map fun (s, rest) => (s.elim unreadable string, rest) := by
  rw [value?, text]
  rfl

theorem value?_array (text : skipSpace t = '[' :: inner) {c : Char} {more : List Char}
    (some_item : skipSpace inner = c :: more) (open_ : c ≠ ']') :
    value? (fuel + 1) t = (items? fuel inner).map fun (xs, rest) => (array xs, rest) := by
  rw [value?, text]
  simp only [some_item]
  split
  · next h => exact absurd (List.cons.inj h).1 open_
  · rfl

theorem value?_object (text : skipSpace t = '\x7b' :: inner) {more : List Char}
    (some_member : skipSpace inner = '"' :: more) :
    value? (fuel + 1) t = (members? fuel inner).map fun (xs, rest) => (ofMembers xs, rest) := by
  rw [value?, text]
  simp only [some_member]
  rfl

end

def ReadsBack (j : Json) : Prop :=
  ∀ indent fuel t rest, Closes rest → (prettyAt indent j).length ≤ fuel →
    skipSpace t = prettyAt indent j ++ rest → value? fuel t = some (j, rest)

section

variable {fuel : Nat} {t rest rest' : List Char} {x : Json} {xs : List Json}

theorem items?_last (read : value? fuel t = some (x, rest)) (close : skipSpace rest = ']' :: rest') :
    items? (fuel + 1) t = some ([x], rest') := by
  rw [items?, read]
  simp only [bind, Option.bind, close]
  rfl

theorem items?_more (read : value? fuel t = some (x, rest)) {more : List Char}
    (comma : skipSpace rest = ',' :: more) (others : items? fuel more = some (xs, rest')) :
    items? (fuel + 1) t = some (x :: xs, rest') := by
  rw [items?, read]
  simp only [bind, Option.bind, comma, others]
  rfl

theorem items?_of_readsBack (h : ∀ y ∈ x :: xs, y.Proper ∧ ReadsBack y) (indent outer : Nat)
    (enough : (prettyAt indent x).length + (prettyItems indent xs).length < fuel)
    (text : skipSpace t =
      prettyAt indent x ++ (prettyItems indent xs ++ (newline outer ++ ']' :: rest))) :
    items? fuel t = some (x :: xs, rest) := by
  induction xs generalizing x fuel t with
  | nil =>
    obtain ⟨fuel, rfl⟩ : ∃ f, fuel = f + 1 := ⟨fuel - 1, by omega⟩
    rw [prettyItems, List.nil_append] at text
    have read := (h x List.mem_cons_self).2 indent fuel t _ (closes_newline outer _) (by omega) text
    exact items?_last read (skipSpace_newline outer _)
  | cons y ys ih =>
    obtain ⟨fuel, rfl⟩ : ∃ f, fuel = f + 1 := ⟨fuel - 1, by omega⟩
    obtain ⟨first, later⟩ := List.forall_mem_cons.1 h
    rw [prettyItems] at text enough
    simp only [List.cons_append, List.append_assoc, List.length_cons,
      List.length_append] at text enough
    have read := first.2 indent fuel t _ (closes_comma _) (by omega) text
    exact items?_more read (skipSpace_cons (by decide) _)
      (ih later (by omega) (skipSpace_value (later y List.mem_cons_self).1 indent indent _))

end

section

variable {fuel : Nat} {t inner rest rest' : List Char} {key : String} {x : Json}

theorem members?_last (text : skipSpace t = quoted key ++ ':' :: inner)
    (read : value? fuel inner = some (x, rest)) (close : skipSpace rest = '\x7d' :: rest') :
    members? (fuel + 1) t = some ([(some key, x)], rest') := by
  rw [members?, text, quoted_append]
  simp only [stringBody?_escaped, bind, Option.bind]
  rw [skipSpace_cons (by decide)]
  simp only [read, close]
  rfl

theorem members?_more {ms : List (Option String × Json)}
    (text : skipSpace t = quoted key ++ ':' :: inner)
    (read : value? fuel inner = some (x, rest)) {more : List Char}
    (comma : skipSpace rest = ',' :: more) (others : members? fuel more = some (ms, rest')) :
    members? (fuel + 1) t = some ((some key, x) :: ms, rest') := by
  rw [members?, text, quoted_append]
  simp only [stringBody?_escaped, bind, Option.bind]
  rw [skipSpace_cons (by decide)]
  simp only [read, comma, others]
  rfl

theorem skipSpace_member (h : x.Proper) (indent : Nat) (rest : List Char) :
    skipSpace (' ' :: (prettyAt indent x ++ rest)) = prettyAt indent x ++ rest :=
  skipSpace_value h 0 indent rest

theorem skipSpace_key (indent : Nat) (key : String) (rest : List Char) :
    skipSpace (newline indent ++ (quoted key ++ rest)) = quoted key ++ rest := by
  rw [skipSpace_newline, quoted_append]
  exact skipSpace_cons (by decide) _

theorem members?_of_readsBack {members : List (String × Json)}
    (h : ∀ m ∈ (key, x) :: members, m.2.Proper ∧ ReadsBack m.2) (indent outer : Nat)
    (enough : (prettyAt indent x).length + (prettyMembers indent members).length < fuel)
    (text : skipSpace t = quoted key ++ ':' :: ' ' :: (prettyAt indent x ++
      (prettyMembers indent members ++ (newline outer ++ '\x7d' :: rest)))) :
    members? fuel t = some (((key, x) :: members).map fun m => (some m.1, m.2), rest) := by
  induction members generalizing key x fuel t with
  | nil =>
    obtain ⟨fuel, rfl⟩ : ∃ f, fuel = f + 1 := ⟨fuel - 1, by omega⟩
    obtain ⟨proper, readsBack⟩ : x.Proper ∧ ReadsBack x := h _ List.mem_cons_self
    rw [prettyMembers, List.nil_append] at text
    exact members?_last text
      (readsBack indent fuel _ _ (closes_newline outer _) (by omega)
        (skipSpace_member proper indent _))
      (skipSpace_newline outer _)
  | cons m members ih =>
    obtain ⟨fuel, rfl⟩ : ∃ f, fuel = f + 1 := ⟨fuel - 1, by omega⟩
    obtain ⟨proper, readsBack⟩ : x.Proper ∧ ReadsBack x := h _ List.mem_cons_self
    have later := (List.forall_mem_cons.1 h).2
    rw [prettyMembers] at text enough
    simp only [List.cons_append, List.nil_append, List.append_assoc, List.length_cons,
      List.length_append] at text enough
    exact members?_more text
      (readsBack indent fuel _ _ (closes_comma _) (by omega) (skipSpace_member proper indent _))
      (skipSpace_cons (by decide) _) (ih later (by omega) (skipSpace_key indent m.1 _))

end

theorem ofMembers_some (members : List (String × Json)) :
    ofMembers (members.map fun m => (some m.1, m.2)) = object members := by
  have keys : (members.map fun m => (some m.1, m.2)).mapM
      (fun m : Option String × Json => m.1.map (·, m.2)) = some members := by
    induction members with
    | nil => rfl
    | cons m members ih => simp_all [List.mapM_cons]
  unfold ofMembers
  split
  · next read => rw [Option.some.inj (keys.symm.trans read)]
  · next unread => cases keys.symm.trans unread

/-- Every value takes a step of fuel, and has a character to pay for it. -/
theorem Proper.readsBack_of_step {j : Json} (h : j.Proper)
    (step : ∀ indent fuel t rest, Closes rest → (prettyAt indent j).length ≤ fuel + 1 →
      skipSpace t = prettyAt indent j ++ rest → value? (fuel + 1) t = some (j, rest)) :
    ReadsBack j := by
  intro indent fuel t rest closes enough text
  obtain ⟨c, t', head, -, -⟩ := exists_head h indent
  have pos : 0 < (prettyAt indent j).length := by simp [head]
  obtain ⟨fuel, rfl⟩ : ∃ f, fuel = f + 1 := ⟨fuel - 1, by omega⟩
  exact step indent fuel t rest closes enough text

theorem readsBack_array {items : List Json} (proper : ∀ x ∈ items, Proper x)
    (h : ∀ x ∈ items, ReadsBack x) : ReadsBack (array items) := by
  apply (Proper.array proper).readsBack_of_step
  intro indent fuel t rest _ enough text
  cases items with
  | nil =>
    rw [value?, text]
    rfl
  | cons x xs =>
    rw [prettyAt] at text enough
    simp only [List.cons_append, List.nil_append, List.append_assoc, List.length_cons,
      List.length_append] at text enough
    have first := proper x List.mem_cons_self
    obtain ⟨c, t', head, -, notClosing⟩ := exists_head first (indent + 2)
    have inner := skipSpace_value first (indent + 2) (indent + 2)
      (prettyItems (indent + 2) xs ++ (newline indent ++ ']' :: rest))
    have read : items? fuel _ = some (x :: xs, rest) :=
      items?_of_readsBack (fun y hy => ⟨proper y hy, h y hy⟩) (indent + 2) indent (by omega) inner
    rw [value?_array text (inner.trans (congrArg (· ++ _) head)) notClosing, read]
    rfl

theorem readsBack_object {members : List (String × Json)} (proper : ∀ m ∈ members, Proper m.2)
    (h : ∀ m ∈ members, ReadsBack m.2) : ReadsBack (object members) := by
  apply (Proper.object proper).readsBack_of_step
  intro indent fuel t rest _ enough text
  cases members with
  | nil =>
    rw [value?, text]
    rfl
  | cons m members =>
    rw [prettyAt] at text enough
    simp only [List.cons_append, List.nil_append, List.append_assoc, List.length_cons,
      List.length_append] at text enough
    have inner := skipSpace_key (indent + 2) m.1 (':' :: ' ' :: (prettyAt (indent + 2) m.2 ++
      (prettyMembers (indent + 2) members ++ (newline indent ++ '\x7d' :: rest))))
    have read : members? fuel _ = some ((m :: members).map fun m => (some m.1, m.2), rest) :=
      members?_of_readsBack (fun m hm => ⟨proper m hm, h m hm⟩) (indent + 2) indent (by omega) inner
    rw [value?_object text (inner.trans (quoted_append m.1 _)), read]
    simp only [Option.map_some, ofMembers_some]

theorem Proper.readsBack {j : Json} (h : j.Proper) : ReadsBack j := by
  induction h with
  | null =>
    apply Proper.null.readsBack_of_step
    intro indent fuel t rest _ _ text
    rw [value?, text]
    rfl
  | bool b =>
    apply (Proper.bool b).readsBack_of_step
    intro indent fuel t rest _ _ text
    rw [value?, text]
    cases b <;> rfl
  | @number n h =>
    apply (Proper.number h).readsBack_of_step
    intro indent fuel t rest closes _ text
    obtain ⟨c, t', head, first⟩ := exists_head_text h
    have read := numeral?_text h closes
    rw [prettyAt] at text
    rw [head, List.cons_append] at text read
    rw [value?_number first text, read]
    rfl
  | string s =>
    apply (Proper.string s).readsBack_of_step
    intro indent fuel t rest _ _ text
    rw [prettyAt, quoted_append] at text
    rw [value?_string text, stringBody?_escaped]
    rfl
  | array proper ih => exact readsBack_array proper ih
  | object proper ih => exact readsBack_object proper ih

theorem parse?_pretty {j : Json} (h : j.Proper) : parse? j.pretty = some j := by
  have closes : Closes [] := nofun
  obtain ⟨c, t, head, notSpace, -⟩ := exists_head h 0
  have text : skipSpace j.pretty = prettyAt 0 j ++ [] := by
    rw [List.append_nil, pretty, head]
    exact skipSpace_cons notSpace t
  rw [parse?, h.readsBack 0 (2 * j.pretty.length + 2) j.pretty [] closes (by rw [pretty]; omega) text]
  rfl

end WcagAudit.Json
