import WcagAudit.Proofs.Rule.SingleTag

namespace WcagAudit

structure Attribute where
  name : List Char
  value : Option (List Char)
  letters : name.all fun c => c.isAlpha || c == '-' := by decide
  plain : value.all (·.all (· ∉ ['"', '\x27', '<', '>'])) := by decide

/-- The property holds of a text with the character in it if it holds of what is on the one side or of
what is on the other. -/
def SplitsAt (P : List Char → Prop) (d : Char) : Prop := ∀ x y, P (x ++ d :: y) ↔ P x ∨ P y

namespace Attribute

theorem isAlpha_or (a : Attribute) : ∀ c ∈ a.name, c.isAlpha ∨ c = '-' := fun c hc => by
  simpa using List.all_eq_true.1 a.letters c hc

theorem not_mem_name (a : Attribute) {c : Char} (symbol : ¬c.isAlpha) (other : c ≠ '-') :
    c ∉ a.name :=
  fun h => (a.isAlpha_or c h).elim symbol other

theorem not_mem_value (a : Attribute) {c : Char} (hc : c ∈ ['"', '\x27', '<', '>']) :
    ∀ v ∈ a.value, c ∉ v := fun v hv inside => by
  simpa [hc] using List.all_eq_true.1 ((Option.all_eq_true ..).1 a.plain v hv) c inside

def text (a : Attribute) : List Char :=
  a.name ++ a.value.elim [] fun v => '=' :: '"' :: (v ++ ['"'])

def listText (as : List Attribute) : List Char := [' '].intercalate (as.map text)

def inside (name : String) (as : List Attribute) : List Char := name.toList ++ ' ' :: listText as

def tag (name : String) (as : List Attribute) : List Char := tagText (inside name as)

section

variable {P : List Char → Prop} (nil : ¬P [])

include nil

theorem listText_iff (space : SplitsAt P ' ') (as : List Attribute) :
    P (listText as) ↔ ∃ a ∈ as, P a.text := by
  induction as with
  | nil => simpa [listText] using nil
  | cons a as ih =>
    cases as with
    | nil => simp [listText]
    | cons b as =>
      have split : listText (a :: b :: as) = a.text ++ ' ' :: listText (b :: as) := by
        simp [listText, List.intercalate_cons_cons]
      rw [split, space, ih]
      exact (List.exists_mem_cons_iff (P ·.text) a (b :: as)).symm

theorem text_iff (equals : SplitsAt P '=') (quote : SplitsAt P '"') (a : Attribute) :
    P a.text ↔ P a.name ∨ ∃ v ∈ a.value, P v := by
  rw [text]
  cases a.value with
  | none => simp
  | some v =>
    have quoted : P ('"' :: (v ++ ['"'])) ↔ P v := by
      rw [← List.nil_append ('"' :: _), quote, quote]
      simp [nil]
    simp [equals a.name, quoted]

theorem listText_iff_parts (splits : ∀ d ∈ [' ', '=', '"'], SplitsAt P d) (as : List Attribute) :
    P (listText as) ↔ ∃ a ∈ as, P a.name ∨ ∃ v ∈ a.value, P v := by
  rw [listText_iff nil (splits _ (by decide))]
  exact exists_congr fun a => and_congr_right fun _ =>
    text_iff nil (splits _ (by decide)) (splits _ (by decide)) a

end

theorem infix_listText_iff {w : List Char} (filled : w ≠ []) (apart : ∀ d ∈ [' ', '=', '"'], d ∉ w)
    (as : List Attribute) :
    w <:+: listText as ↔ ∃ a ∈ as, w <:+: a.name ∨ ∃ v ∈ a.value, w <:+: v :=
  listText_iff_parts (P := (w <:+: ·)) (by simpa) (fun d hd _ _ => infix_append_cons_iff (apart d hd)) as

theorem not_mem_listText {c : Char} (hc : c = '<' ∨ c = '>') (as : List Attribute) :
    c ∉ listText as := by
  have apart : ∀ d ∈ [' ', '=', '"'], d ∉ [c] := by
    rcases hc with rfl | rfl <;> simp
  rw [← List.singleton_infix_iff, infix_listText_iff (List.cons_ne_nil c []) apart]
  rintro ⟨a, -, named | ⟨v, hv, inside⟩⟩
  · refine a.not_mem_name ?_ ?_ ((List.singleton_infix_iff ..).1 named)
    all_goals rcases hc with rfl | rfl <;> decide
  · refine a.not_mem_value ?_ v hv ((List.singleton_infix_iff ..).1 inside)
    rcases hc with rfl | rfl <;> decide

theorem not_mem_inside {name : String} (word : IsWord name) {c : Char} (hc : c = '<' ∨ c = '>')
    (as : List Attribute) : c ∉ inside name as := by
  have symbol : ¬c.isAlpha ∧ c ≠ ' ' := by
    rcases hc with rfl | rfl <;> decide
  rw [inside, List.mem_append, List.mem_cons, not_or, not_or]
  exact ⟨fun h => symbol.1 (word.letters c h), symbol.2, not_mem_listText hc as⟩

theorem not_infix_rest (as : List Attribute) {d : Char} (hd : d ∈ ['/', '*'])
    (none : ∀ a ∈ as, ∀ v ∈ a.value, ¬['/', d] <:+: v) : ¬['/', d] <:+: ' ' :: listText as := by
  have apart : ∀ e ∈ [' ', '=', '"'], e ∉ ['/', d] := by
    rcases List.mem_cons.1 hd with rfl | hd
    · simp
    · obtain rfl := List.mem_singleton.1 hd
      simp
  rw [← List.nil_append (' ' :: _), infix_append_cons_iff (apart _ (by simp)),
    infix_listText_iff (by simp) apart]
  rintro (empty | ⟨a, ha, named | ⟨v, hv, inside⟩⟩)
  · exact absurd (List.infix_nil.1 empty) (by simp)
  · exact a.not_mem_name (by decide) (by decide) (named.subset List.mem_cons_self)
  · exact none a ha v hv inside

end Attribute

end WcagAudit
