import WcagAudit.Text.Blank
import WcagAudit.Text.LetterCase
import WcagAudit.Text.WordChar

/-!
Text patterns and the run of a pattern at one place of a text. A run tries the alternatives in order
and long repetitions before short ones (or the reverse, where the pattern says so), and takes the
first way through: `Pattern.run` hands each end it reaches to a continuation, which may refuse it.
-/

namespace WcagAudit

structure Span where
  start : List Char
  length : Nat

def Span.text (s : Span) : List Char := s.start.take s.length

/-- A place that a run has reached: the characters read so far are `pos` in number and end with
`before`, `rest` is still to come, and `parts` are the captured stretches. -/
structure Trail where
  pos : Nat
  before : Char
  rest : List Char
  parts : List Span

def Trail.advance (t : Trail) (c : Char) (rest : List Char) : Trail :=
  { t with pos := t.pos + 1, before := c, rest }

def Trail.capture (t start : Trail) : Trail :=
  { t with parts := t.parts ++ [⟨start.rest, t.pos - start.pos⟩] }

inductive Pattern where
  | nothing
  | one (accepts : Char → Bool)
  | seq (p q : Pattern)
  | either (p q : Pattern)
  | optional (p : Pattern)
  | many (accepts : Char → Bool)
  | few (accepts : Char → Bool)
  /-- Between a word character and another; the ends of the text count as blanks. -/
  | boundary
  | finish
  | part (p : Pattern)

def Trail.longest (accepts : Char → Bool) (k : Trail → Option α) : Trail → List Char → Option α
  | t, [] => k t
  | t, c :: cs =>
    if accepts c then
      match longest accepts k (t.advance c cs) cs with
      | some r => some r
      | none => k t
    else k t

def Trail.shortest (accepts : Char → Bool) (k : Trail → Option α) : Trail → List Char → Option α
  | t, [] => k t
  | t, c :: cs =>
    match k t with
    | some r => some r
    | none => if accepts c then shortest accepts k (t.advance c cs) cs else none

namespace Pattern

def run : Pattern → Trail → (Trail → Option α) → Option α
  | nothing, t, k => k t
  | one accepts, t, k =>
    match t.rest with
    | c :: cs => if accepts c then k (t.advance c cs) else none
    | [] => none
  | seq p q, t, k => p.run t fun u => q.run u k
  | either p q, t, k =>
    match p.run t k with
    | some r => some r
    | none => q.run t k
  | optional p, t, k =>
    match p.run t k with
    | some r => some r
    | none => k t
  | many accepts, t, k => t.longest accepts k t.rest
  | few accepts, t, k => t.shortest accepts k t.rest
  | boundary, t, k => if isBoundary t.before (t.rest.headD ' ') then k t else none
  | finish, t, k => if t.rest.isEmpty then k t else none
  | part p, t, k => p.run t fun u => k (u.capture t)

def append : Pattern → Pattern → Pattern
  | nothing, r => r
  | seq p q, r => seq p (q.append r)
  | p, r => seq p r

instance : Append Pattern := ⟨append⟩

def char (c : Char) : Pattern := one (· == c)

def letter (c : Char) : Pattern := one (sameLetter c)

def exactly (s : String) : Pattern := s.toList.foldr (fun c p => char c ++ p) nothing

def ignoringCase (s : String) : Pattern := s.toList.foldr (fun c p => letter c ++ p) nothing

def firstOf : List Pattern → Pattern
  | [] => one fun _ => false
  | [p] => p
  | p :: ps => either p (firstOf ps)

def anyName (names : List String) : Pattern := firstOf (names.map ignoringCase)

def digit : Pattern := one Char.isDigit

def blanks : Pattern := many isBlank

end Pattern
end WcagAudit
