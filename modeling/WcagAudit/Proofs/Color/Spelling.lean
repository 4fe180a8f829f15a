import WcagAudit.Color.Literal
import WcagAudit.Proofs.Pattern.Description
import WcagAudit.Proofs.Text.Digits

namespace WcagAudit.Color

open Pattern

structure Gap where
  text : List Char
  blank : text.all isBlank := by decide

structure Numeral where
  digits : List Char
  decimal : digits.all Char.isDigit := by decide
  filled : digits ≠ [] := by decide
  short : digits.length ≤ 3 := by decide

def Numeral.value (n : Numeral) : Nat := ofDecimal n.digits

theorem Numeral.value_lt (n : Numeral) : n.value < 1000 :=
  Nat.lt_of_lt_of_le (ofDecimal_lt n.decimal) (Nat.pow_le_pow_right (by decide) n.short)

structure Comma where
  before : Gap
  after : Gap

def Comma.text (c : Comma) : List Char := c.before.text ++ ',' :: c.after.text

structure Alpha where
  whole : List Char
  fraction : List Char
  decimal : whole.all Char.isDigit := by decide
  decimalFraction : fraction.all Char.isDigit := by decide

def Alpha.text (a : Alpha) : List Char :=
  a.whole ++ if a.fraction = [] then [] else '.' :: a.fraction

structure Opacity where
  opening : Gap
  alpha : Alpha
  closing : Gap

def Opacity.text (o : Opacity) : List Char :=
  ',' :: (o.opening.text ++ o.alpha.text ++ o.closing.text)

structure Spelling where
  long : Bool
  opening : Gap
  first : Numeral
  comma : Comma
  second : Numeral
  comma' : Comma
  third : Numeral
  behind : Gap
  opacity : Option Opacity

inductive Form where
  | rgb
  | hsl
  deriving DecidableEq

namespace Form

def name : Form → String
  | rgb => "rgb"
  | hsl => "hsl"

def unit : Form → List Char
  | rgb => []
  | hsl => ['%']

end Form

namespace Spelling

def opened (f : Form) (s : Spelling) : List Char :=
  f.name.toList ++ (if s.long then ['a'] else []) ++ '(' :: s.opening.text

def closed (s : Spelling) : List Char := s.behind.text ++ s.opacity.elim [] Opacity.text ++ [')']

def text (f : Form) (s : Spelling) : List Char :=
  s.opened f ++ s.first.digits ++ s.comma.text ++ s.second.digits ++ f.unit ++ s.comma'.text ++
    s.third.digits ++ f.unit ++ s.closed

def numerals (s : Spelling) : List (List Char) := [s.first.digits, s.second.digits, s.third.digits]

/-- No white space stands between the third numeral and the closing bracket. -/
def Tight (s : Spelling) : Prop := s.opacity = none → s.behind.text = []

instance (s : Spelling) : Decidable s.Tight := by
  unfold Tight
  cases s.opacity <;> infer_instance

end Spelling

theorem describes_blanks : blanks.Describes Gap.text :=
  (describes_many isBlank).map (fun w => ⟨w.val, w.property⟩) (fun _ => rfl)
    fun g => ⟨⟨g.text, g.blank⟩, rfl⟩

def Numeral.ofDigits : {c : Char // c.isDigit} ×
    Option ({c : Char // c.isDigit} × Option {c : Char // c.isDigit}) → Numeral
  | (a, none) => ⟨[a.val], by simp [a.property], by simp, by simp⟩
  | (a, some (b, none)) => ⟨[a.val, b.val], by simp [a.property, b.property], by simp, by simp⟩
  | (a, some (b, some c)) =>
    ⟨[a.val, b.val, c.val], by simp [a.property, b.property, c.property], by simp, by simp⟩

theorem describes_numeral : numeral.Describes Numeral.digits := by
  have digits := (describes_one Char.isDigit).append
    ((describes_one Char.isDigit).append (describes_one Char.isDigit).optional).optional
  refine digits.map Numeral.ofDigits ?_ ?_
  · rintro ⟨a, _ | ⟨b, _ | c⟩⟩ <;> rfl
  · rintro ⟨ds, decimal, filled, short⟩
    match ds, decimal, filled, short with
    | [a], h, _, _ => exact ⟨(⟨a, by simpa using h⟩, none), rfl⟩
    | [a, b], h, _, _ =>
      have h : a.isDigit ∧ b.isDigit := by simpa using h
      exact ⟨(⟨a, h.1⟩, some (⟨b, h.2⟩, none)), rfl⟩
    | [a, b, c], h, _, _ =>
      have h : a.isDigit ∧ b.isDigit ∧ c.isDigit := by simpa using h
      exact ⟨(⟨a, h.1⟩, some (⟨b, h.2.1⟩, some ⟨c, h.2.2⟩)), rfl⟩

theorem describes_comma : comma.Describes Comma.text :=
  ((describes_blanks.append (describes_char ',')).append describes_blanks).map
    (fun g => ⟨g.1.1, g.2⟩) (fun g => by simp [Comma.text])
    fun c => ⟨((c.before, ()), c.after), by simp [Comma.text]⟩

theorem describes_alpha : alpha.Describes Alpha.text := by
  have fraction := ((describes_char '.').append (describes_one Char.isDigit)).append
    (describes_many Char.isDigit)
  refine ((describes_many Char.isDigit).append fraction.optional).map
    (fun | (w, none) => ⟨w.val, [], w.property, rfl⟩
         | (w, some ((_, d), ds)) => ⟨w.val, d.val :: ds.val, w.property, by simp [d.property, ds.property]⟩)
    ?_ ?_
  · rintro ⟨w, _ | ⟨⟨_, d⟩, ds⟩⟩ <;> simp [Alpha.text]
  · rintro ⟨w, ds, decimal, fractional⟩
    cases ds with
    | nil => exact ⟨(⟨w, decimal⟩, none), rfl⟩
    | cons d ds =>
      have h : d.isDigit ∧ ds.all Char.isDigit := by simpa using fractional
      exact ⟨(⟨w, decimal⟩, some (((), ⟨d, h.1⟩), ⟨ds, h.2⟩)), rfl⟩

theorem describes_functional (name : String) : (functional name).Describes
    fun s : Bool × Gap => name.toList ++ (if s.1 then ['a'] else []) ++ '(' :: s.2.text := by
  have parts := (((describes_exactly name).append (describes_char 'a').optional).append
    (describes_char '(')).append describes_blanks
  refine parts.map (fun s => (s.1.1.2.isSome, s.2)) ?_ ?_
  · rintro ⟨⟨⟨_, _ | _⟩, _⟩, g⟩ <;> simp
  · rintro ⟨_ | _, g⟩
    · exact ⟨((((), none), ()), g), by simp⟩
    · exact ⟨((((), some ()), ()), g), by simp⟩

theorem describes_rgbLiteral :
    rgbLiteral.Describes fun s : {s : Spelling // s.Tight} => s.val.text .rgb := by
  have opacity := (describes_comma.append describes_alpha).append describes_blanks
  have parts := (((((((describes_functional "rgb").append describes_numeral).append describes_comma).append
    describes_numeral).append describes_comma).append describes_numeral).append opacity.optional).append
    (describes_char ')')
  refine parts.map
    (fun (((((((((long, opening), first), comma), second), comma'), third), opacity), _)) =>
      ⟨{ long, opening, first, comma, second, comma', third,
          behind := opacity.elim ⟨[], rfl⟩ fun o => o.1.1.before,
          opacity := opacity.map fun o => ⟨o.1.1.after, o.1.2, o.2⟩ }, ?_⟩)
    ?_ ?_
  · cases opacity <;> simp [Spelling.Tight]
  · rintro ⟨⟨⟨⟨⟨⟨⟨⟨long, opening⟩, first⟩, comma⟩, second⟩, comma'⟩, third⟩, _ | ⟨⟨c, a⟩, g⟩⟩, _⟩
    all_goals simp [Spelling.text, Spelling.opened, Spelling.closed, Form.name, Form.unit, Comma.text, Opacity.text]
  · rintro ⟨⟨long, opening, first, comma, second, comma', third, behind, opacity⟩, tight⟩
    cases opacity with
    | none =>
      have tight : behind.text = [] := tight rfl
      refine ⟨((((((((long, opening), first), comma), second), comma'), third), none), ()), ?_⟩
      simp [Spelling.text, Spelling.opened, Spelling.closed, Form.name, Form.unit, tight]
    | some o =>
      refine ⟨((((((((long, opening), first), comma), second), comma'), third),
        some ((⟨behind, o.opening⟩, o.alpha), o.closing)), ()), ?_⟩
      simp [Spelling.text, Spelling.opened, Spelling.closed, Form.name, Form.unit, Comma.text, Opacity.text]

theorem describes_hslLiteral : hslLiteral.Describes (Spelling.text .hsl) := by
  have opacity := (((describes_char ',').append describes_blanks).append describes_alpha).append
    describes_blanks
  have percent := describes_char '%'
  have parts := ((((((((((describes_functional "hsl").append describes_numeral).append
    describes_comma).append describes_numeral).append percent).append describes_comma).append
    describes_numeral).append percent).append describes_blanks).append opacity.optional).append
    (describes_char ')')
  refine parts.map
    (fun (((((((((((long, opening), first), comma), second), _), comma'), third), _), behind), opacity), _) =>
      { long, opening, first, comma, second, comma', third, behind,
        opacity := opacity.map fun o => ⟨o.1.1.2, o.1.2, o.2⟩ })
    ?_ ?_
  · rintro ⟨⟨⟨⟨⟨⟨⟨⟨⟨⟨⟨long, opening⟩, first⟩, comma⟩, second⟩, _⟩, comma'⟩, third⟩, _⟩, behind⟩,
      _ | ⟨⟨⟨_, g⟩, a⟩, g'⟩⟩, _⟩
    all_goals simp [Spelling.text, Spelling.opened, Spelling.closed, Form.name, Form.unit, Opacity.text]
  · rintro ⟨long, opening, first, comma, second, comma', third, behind, opacity⟩
    refine ⟨(((((((((((long, opening), first), comma), second), ()), comma'), third), ()), behind),
      opacity.map fun o => ((((), o.opening), o.alpha), o.closing)), ()), ?_⟩
    cases opacity <;> simp [Spelling.text, Spelling.opened, Spelling.closed, Form.name, Form.unit, Opacity.text]

theorem Gap.not_isDigit (g : Gap) : ∀ c ∈ g.text, ¬c.isDigit :=
  fun c hc digit => not_isBlank_of_isDigit digit (List.all_eq_true.1 g.blank c hc)

theorem Comma.not_isDigit (k : Comma) : ∀ c ∈ k.text, ¬c.isDigit := by
  simp only [Comma.text, List.forall_mem_append, List.forall_mem_cons]
  exact ⟨k.before.not_isDigit, by decide, k.after.not_isDigit⟩

theorem Form.not_isDigit (f : Form) : ∀ c ∈ f.name.toList ++ f.unit, ¬c.isDigit := by
  have plain : (f.name.toList ++ f.unit).all (!Char.isDigit ·) := by cases f <;> decide
  exact fun c hc => by simpa using List.all_eq_true.1 plain c hc

theorem Form.unit_not_isDigit (f : Form) : ∀ c ∈ f.unit, ¬c.isDigit :=
  fun c hc => f.not_isDigit c (List.mem_append_right _ hc)

def Breaks (x : List Char) : Prop := x.head?.any (!Char.isDigit ·)

theorem Breaks.append {x y : List Char} (hx : ∀ c ∈ x, ¬c.isDigit) (hy : Breaks y) : Breaks (x ++ y) := by
  cases x with
  | nil => exact hy
  | cons c x => simpa [Breaks] using hx c List.mem_cons_self

theorem Comma.breaks (k : Comma) (y : List Char) : Breaks (k.text ++ y) := by
  rw [text, List.append_assoc]
  exact .append k.before.not_isDigit rfl

theorem Numeral.digitRuns_append (n : Numeral) {x : List Char} (h : Breaks x) :
    digitRuns (n.digits ++ x) = n.digits :: digitRuns x := by
  cases x with
  | nil => cases h
  | cons c x =>
    have other : ¬c.isDigit := by simpa [Breaks] using h
    rw [digitRuns_run n.decimal n.filled other]
    exact congrArg _ (digitRuns_append_cons other [] x).symm

namespace Spelling

variable (f : Form) (s : Spelling)

theorem opened_not_isDigit : ∀ c ∈ s.opened f, ¬c.isDigit := by
  have name : ∀ c ∈ f.name.toList, ¬c.isDigit := fun c hc => f.not_isDigit c (List.mem_append_left _ hc)
  have short : ∀ c ∈ if s.long then ['a'] else [], ¬c.isDigit := by
    split <;> simp
  simp only [opened, List.forall_mem_append, List.forall_mem_cons]
  exact ⟨⟨name, short⟩, by decide, s.opening.not_isDigit⟩

theorem breaks_closed (rest : List Char) : Breaks (f.unit ++ (s.closed ++ rest)) := by
  refine .append f.unit_not_isDigit ?_
  rw [closed, List.append_assoc, List.append_assoc]
  refine .append s.behind.not_isDigit ?_
  cases s.opacity <;> rfl

theorem digitRuns_text (rest : List Char) :
    digitRuns (s.text f ++ rest) = s.numerals ++ digitRuns (f.unit ++ (s.closed ++ rest)) := by
  have split : s.text f ++ rest = s.opened f ++ (s.first.digits ++ (s.comma.text ++ (s.second.digits ++
      (f.unit ++ (s.comma'.text ++ (s.third.digits ++ (f.unit ++ (s.closed ++ rest)))))))) := by
    simp only [text, List.append_assoc]
  rw [split, digitRuns_pass (s.opened_not_isDigit f), s.first.digitRuns_append (s.comma.breaks _),
    digitRuns_pass s.comma.not_isDigit,
    s.second.digitRuns_append (.append f.unit_not_isDigit (s.comma'.breaks _)),
    digitRuns_pass f.unit_not_isDigit, digitRuns_pass s.comma'.not_isDigit,
    s.third.digitRuns_append (s.breaks_closed f rest)]
  rfl

end Spelling

end WcagAudit.Color
