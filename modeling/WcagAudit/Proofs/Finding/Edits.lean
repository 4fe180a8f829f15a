import Mathlib.Data.Fintype.EquivFin
import Mathlib.Logic.Nontrivial.Basic
import WcagAudit.Finding

namespace WcagAudit.Finding

namespace Edit

def wcag? : Edit → Option (String × Level)
  | wcag criterion level => some (criterion, level)
  | _ => none

def category? : Edit → Option String
  | wcag _ level => some (levelCategory level)
  | category name => some name
  | _ => none

def ruleName? : Edit → Option String
  | ruleName name => some name
  | _ => none

def file? : Edit → Option (Option Path)
  | file path => some path
  | _ => none

def impact? : Edit → Option Impact
  | impact groups => some groups
  | _ => none

inductive Kind where
  | wcag | category | ruleName | file | impact
  deriving DecidableEq

def kind : Edit → Kind
  | wcag .. => .wcag
  | category _ => .category
  | ruleName _ => .ruleName
  | file _ => .file
  | impact _ => .impact

end Edit

variable {α β : Type _}

def last (writes : Edit → Option α) (edits : List Edit) : Option α :=
  (edits.filterMap writes).getLast?

theorem last_cons (writes : Edit → Option α) (e : Edit) (edits : List Edit) :
    last writes (e :: edits) = (last writes edits).or (writes e) := by
  unfold last
  cases h : writes e with
  | none => rw [List.filterMap_cons_none h, Option.or_none]
  | some v => rw [List.filterMap_cons_some h, List.getLast?_cons, ← Option.or_some]

theorem last_map (writes : Edit → Option α) (g : α → β) (edits : List Edit) :
    last (fun e => (writes e).map g) edits = (last writes edits).map g := by
  rw [last, last, ← List.getLast?_map, List.map_filterMap]

theorem field_editAll {field : Finding → α} {writes : Edit → Option α}
    (step : ∀ f e, field (f.edit e) = (writes e).getD (field f)) (f : Finding) (edits : List Edit) :
    field (f.editAll edits) = (last writes edits).getD (field f) := by
  induction edits generalizing f with
  | nil => rfl
  | cons e edits ih =>
    calc field ((f.edit e).editAll edits)
      _ = (last writes edits).getD ((writes e).getD (field f)) := by rw [ih, step]
      _ = (last writes (e :: edits)).getD (field f) := by rw [last_cons, Option.getD_or]

theorem optional_field_editAll {field : Finding → Option α} {writes : Edit → Option α}
    (step : ∀ f e, field (f.edit e) = (writes e).or (field f)) (f : Finding) (edits : List Edit) :
    field (f.editAll edits) = (last writes edits).or (field f) := by
  have or_eq (o o' : Option α) : (o.map some).getD o' = o.or o' := by cases o <;> rfl
  rw [← or_eq, ← last_map]
  exact field_editAll (fun f e => by rw [step, or_eq]) f edits

theorem kept_editAll {field : Finding → α} (step : ∀ f e, field (f.edit e) = field f) (f : Finding)
    (edits : List Edit) : field (f.editAll edits) = field f := by
  induction edits generalizing f with
  | nil => rfl
  | cons e edits ih => exact (ih (f.edit e)).trans (step f e)

attribute [ext] Finding

theorem editAll_eq (f : Finding) (edits : List Edit) :
    f.editAll edits =
      { f with
        criterion := ((last Edit.wcag? edits).map (·.1)).or f.criterion
        level := ((last Edit.wcag? edits).map (·.2)).or f.level
        category := (last Edit.category? edits).getD f.category
        ruleName := (last Edit.ruleName? edits).getD f.ruleName
        file := (last Edit.file? edits).getD f.file
        impact := (last Edit.impact? edits).or f.impact } := by
  ext1
  case criterion =>
    rw [← last_map Edit.wcag? (·.1)]
    exact optional_field_editAll (fun f e => by cases e <;> rfl) f edits
  case level =>
    rw [← last_map Edit.wcag? (·.2)]
    exact optional_field_editAll (fun f e => by cases e <;> rfl) f edits
  case impact => exact optional_field_editAll (fun f e => by cases e <;> rfl) f edits
  case category | ruleName | file => exact field_editAll (fun f e => by cases e <;> rfl) f edits
  -- No edit writes any of the others.
  all_goals exact kept_editAll (fun f e => by cases e <;> rfl) f edits

/-- The last edits of each field agree. -/
structure SameLast (edits others : List Edit) : Prop where
  wcag : last Edit.wcag? edits = last Edit.wcag? others
  category : last Edit.category? edits = last Edit.category? others
  ruleName : last Edit.ruleName? edits = last Edit.ruleName? others
  file : last Edit.file? edits = last Edit.file? others
  impact : last Edit.impact? edits = last Edit.impact? others

theorem eq_of_getD_eq [Nontrivial α] {o o' : Option α} (h : ∀ a, o.getD a = o'.getD a) : o = o' := by
  have constant {v : α} (same : ∀ a, v = a) : False := by
    obtain ⟨a, b, apart⟩ := exists_pair_ne α
    exact apart ((same a).symm.trans (same b))
  cases o with
  | none =>
    cases o' with
    | none => rfl
    | some v => exact (constant fun a => (h a).symm).elim
  | some v =>
    cases o' with
    | none => exact (constant h).elim
    | some w => exact congrArg some (h v)

theorem eq_of_map_eq {o o' : Option (α × β)} (first : o.map (·.1) = o'.map (·.1))
    (second : o.map (·.2) = o'.map (·.2)) : o = o' := by
  cases o <;> cases o' <;> simp_all [Prod.ext_iff]

theorem editAll_eq_editAll_iff {edits others : List Edit} :
    (∀ f : Finding, f.editAll edits = f.editAll others) ↔ SameLast edits others := by
  constructor
  · intro same
    -- A field shows what its last edit has written if the finding had another value there before.
    have fields (f : Finding) := same f
    simp only [editAll_eq, Finding.mk.injEq, true_and] at fields
    have f : Finding := new "" .error ""
    have : Nonempty Path := ⟨.ofString ""⟩
    exact {
      wcag := eq_of_map_eq (by simpa using (fields { f with criterion := none }).2.2.2.1)
        (by simpa using (fields { f with level := none }).2.2.2.2.1)
      category := eq_of_getD_eq fun name => (fields { f with category := name }).2.1
      ruleName := eq_of_getD_eq fun name => (fields { f with ruleName := name }).1
      file := eq_of_getD_eq fun path => (fields { f with file := path }).2.2.1
      impact := by simpa using (fields { f with impact := none }).2.2.2.2.2 }
  · intro same f
    rw [editAll_eq, editAll_eq, same.wcag, same.category, same.ruleName, same.file, same.impact]

theorem edit_edit_comm_iff {e e' : Edit} (apart : e.kind ≠ e'.kind) (f : Finding) :
    (f.edit e).edit e' = (f.edit e').edit e ↔ ∀ c ∈ e.category?, ∀ c' ∈ e'.category?, c = c' := by
  cases e <;> cases e' <;> first
    | exact absurd rfl apart
    | simp [Edit.category?, edit, eq_comm]

example : ((new "r" .error "m").editAll [.category "forms", .wcag "2.1.1" .aa]).category =
      "accessibility/wcag-aa" ∧
    ((new "r" .error "m").editAll [.wcag "2.1.1" .aa, .category "forms"]).category = "forms" :=
  ⟨rfl, rfl⟩

def Edit.Kind.Commute (k k' : Kind) : Prop :=
  ∀ e e' : Edit, e.kind = k → e'.kind = k' → ∀ f : Finding, (f.edit e).edit e' = (f.edit e').edit e

theorem Edit.kind_of_category? {e : Edit} {c : String} (h : c ∈ e.category?) :
    e.kind = .wcag ∨ e.kind = .category := by
  cases e <;> simp_all [kind, category?]

theorem not_commute_iff {k k' : Edit.Kind} : k ≠ k' ∧ ¬k.Commute k' ↔
    k = .wcag ∧ k' = .category ∨ k = .category ∧ k' = .wcag := by
  constructor
  · rintro ⟨apart, clash⟩
    simp only [Edit.Kind.Commute, not_forall] at clash
    obtain ⟨e, e', rfl, rfl, f, clash⟩ := clash
    simp only [edit_edit_comm_iff apart, not_forall] at clash
    obtain ⟨c, hc, c', hc', -⟩ := clash
    have first := Edit.kind_of_category? hc
    have second := Edit.kind_of_category? hc'
    grind
  · rintro (⟨rfl, rfl⟩ | ⟨rfl, rfl⟩)
    · refine ⟨by decide, fun commute => ?_⟩
      have := commute (.wcag "" .a) (.category "") rfl rfl (new "" .error "")
      exact absurd this (by decide)
    · refine ⟨by decide, fun commute => ?_⟩
      have := commute (.category "") (.wcag "" .a) rfl rfl (new "" .error "")
      exact absurd this (by decide)

/-- However a new finding is edited, who made it and when, its rule, its severity and its message stay.
Criterion and level are those of the last edit that sets them, and every other field is what its last
edit has written.  So runs of edits whose last edits agree do the same to every finding, and no others
do.  The order of two kinds counts for criterion against category alone: there the later one decides
the category, unless it is the level's own. -/
theorem last_edits_win (stamp : Stamp) (ruleId : String) (severity : Severity) (message : String) :
    let start : Finding := { new ruleId severity message with stamp }
    (∀ edits, start.editAll edits =
      { stamp, source := toolName, ruleId, severity, message
        criterion := (last Edit.wcag? edits).map (·.1)
        level := (last Edit.wcag? edits).map (·.2)
        category := (last Edit.category? edits).getD ""
        ruleName := (last Edit.ruleName? edits).getD ruleId
        file := (last Edit.file? edits).getD none
        impact := last Edit.impact? edits }) ∧
    (∀ edits, (start.editAll edits).location = Path.location ((last Edit.file? edits).getD none)) ∧
    (∀ edits others, (∀ f : Finding, f.editAll edits = f.editAll others) ↔ SameLast edits others) ∧
    (∀ k k' : Edit.Kind, k ≠ k' ∧ ¬k.Commute k' ↔
      k = .wcag ∧ k' = .category ∨ k = .category ∧ k' = .wcag) ∧
    ∀ (f : Finding) criterion level name,
      (f.edit (.wcag criterion level)).edit (.category name) =
        (f.edit (.category name)).edit (.wcag criterion level) ↔ name = levelCategory level := by
  intro start
  refine ⟨fun edits => ?_, fun edits => ?_, fun _ _ => editAll_eq_editAll_iff,
    fun _ _ => not_commute_iff, fun f criterion level name => ?_⟩
  · rw [editAll_eq]
    simp only [start, new, Option.or_none]
  · rw [editAll_eq]
    rfl
  · rw [edit_edit_comm_iff (by simp [Edit.kind])]
    simp [Edit.category?, eq_comm]

end WcagAudit.Finding
