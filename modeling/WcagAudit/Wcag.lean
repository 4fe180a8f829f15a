namespace WcagAudit

inductive Level where
  | a
  | aa
  | aaa
  deriving DecidableEq, Repr

namespace Level

def all : List Level := [a, aa, aaa]

def rank : Level → Nat
  | a => 0
  | aa => 1
  | aaa => 2

instance : LE Level := ⟨fun l m => l.rank ≤ m.rank⟩

instance (l m : Level) : Decidable (l ≤ m) := inferInstanceAs (Decidable (l.rank ≤ m.rank))

def name : Level → String
  | a => "A"
  | aa => "AA"
  | aaa => "AAA"

def ofName? (s : String) : Option Level := all.find? (·.name == s)

end Level

inductive Severity where
  | error
  | warning
  | info
  deriving DecidableEq, Repr

namespace Severity

def all : List Severity := [error, warning, info]

def rank : Severity → Nat
  | error => 0
  | warning => 1
  | info => 2

def blocksRelease : Severity → Bool
  | error => true
  | _ => false

def name : Severity → String
  | error => "error"
  | warning => "warning"
  | info => "info"

def ofName? (s : String) : Option Severity := all.find? (·.name == s)

def title : Severity → String
  | error => "ERROR"
  | warning => "WARNING"
  | info => "INFO"

end Severity

structure Impact where
  blind : Bool := false
  motor : Bool := false
  cognitive : Bool := false
  deriving DecidableEq, Repr

namespace Impact

def onBlind : Impact := { blind := true }

def onMotor : Impact := { motor := true }

def onCognitive : Impact := { cognitive := true }

def onBlindAndMotor : Impact := { blind := true, motor := true }

def groups (i : Impact) : List String :=
  (if i.blind then ["blind"] else []) ++ (if i.motor then ["motor"] else []) ++
    if i.cognitive then ["cognitive"] else []

end Impact
end WcagAudit
