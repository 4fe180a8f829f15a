import WcagAudit.Pattern.Basic

namespace WcagAudit

structure Match where
  text : List Char
  parts : List (List Char)

def Match.part (m : Match) (i : Nat) : List Char := m.parts.getD i []

namespace Pattern

def matchAt? (p : Pattern) (before : Char) (rest : List Char) : Option Match :=
  p.run ⟨0, before, rest, []⟩ fun t => some ⟨rest.take t.pos, t.parts.map Span.text⟩

def occursFrom (p : Pattern) (before : Char) : List Char → Bool
  | [] => (p.matchAt? before []).isSome
  | c :: cs => (p.matchAt? before (c :: cs)).isSome || p.occursFrom c cs

def occursIn (p : Pattern) (t : List Char) : Bool := p.occursFrom ' ' t

def covers (p : Pattern) (t : List Char) : Bool := ((p ++ finish).matchAt? ' ' t).isSome

/-- The matches in the rest of a text, of whose characters the first `skip` are taken. -/
def matchesFrom (p : Pattern) : (skip : Nat) → (before : Char) → List Char → List Match
  | _, _, [] => []
  | skip + 1, _, c :: cs => p.matchesFrom skip c cs
  | 0, before, c :: cs =>
    match p.matchAt? before (c :: cs) with
    | some m =>
      match m.text with
      | [] => p.matchesFrom 0 c cs
      | _ :: taken => m :: p.matchesFrom taken.length c cs
    | none => p.matchesFrom 0 c cs

def matchesIn (p : Pattern) (t : List Char) : List Match := p.matchesFrom 0 ' ' t

def eraseFrom (p : Pattern) : (skip : Nat) → (before : Char) → List Char → List Char
  | _, _, [] => []
  | skip + 1, _, c :: cs => p.eraseFrom skip c cs
  | 0, before, c :: cs =>
    match p.matchAt? before (c :: cs) with
    | some m =>
      match m.text with
      | [] => c :: p.eraseFrom 0 c cs
      | _ :: taken => p.eraseFrom taken.length c cs
    | none => c :: p.eraseFrom 0 c cs

def eraseIn (p : Pattern) (t : List Char) : List Char := p.eraseFrom 0 ' ' t

end Pattern
end WcagAudit
