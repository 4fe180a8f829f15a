import WcagAudit.Text.Digits

namespace WcagAudit

structure Numeral where
  negative : Bool := false
  whole : List Char
  fraction : Option (List Char) := none
  exponent : Option (Bool × List Char) := none
  deriving DecidableEq

namespace Numeral

def ofNat (n : Nat) : Numeral := { whole := toDecimal n }

def ofInt (n : Int) : Numeral := { negative := n < 0, whole := toDecimal n.natAbs }

def text (n : Numeral) : List Char :=
  (if n.negative then ['-'] else []) ++ n.whole ++
    (match n.fraction with
      | some digits => '.' :: digits
      | none => []) ++
    match n.exponent with
      | some (negative, digits) => 'e' :: (if negative then ['-'] else []) ++ digits
      | none => []

def toNat? (n : Numeral) : Option Nat :=
  if n.negative || n.fraction.isSome || n.exponent.isSome then none else some (ofDecimal n.whole)

def toFloat? (n : Numeral) : Option Float :=
  let digits := (n.whole ++ n.fraction.getD []).dropWhile (· == '0')
  let drop := (n.fraction.getD []).length
  let exponent : Int := match n.exponent with
    | some (true, e) => -(ofDecimal e : Int) - drop
    | some (false, e) => (ofDecimal e : Int) - drop
    | none => -(drop : Int)
  let size := exponent + digits.length
  let magnitude :=
    if digits.isEmpty || size < -400 then 0
    else if size > 400 then 1 / 0
    else Float.ofScientific (ofDecimal digits) (exponent < 0) exponent.natAbs
  if magnitude.isInf then none else some (if n.negative then -magnitude else magnitude)

end Numeral

inductive Json where
  | null
  | bool (b : Bool)
  | number (n : Numeral)
  | string (s : String)
  | array (items : List Json)
  | object (members : List (String × Json))
  /-- A string that is no Unicode text, or an object with such a key. -/
  | unreadable

namespace Json

instance : Inhabited Json := ⟨null⟩

def nat (n : Nat) : Json := number (.ofNat n)

def ofOption (f : α → Json) : Option α → Json
  | some a => f a
  | none => null

def list (f : α → Json) (items : List α) : Json := array (items.map f)

def escape (c : Char) : List Char :=
  if c = '"' then ['\\', '"']
  else if c = '\\' then ['\\', '\\']
  else if c = '\x08' then ['\\', 'b']
  else if c = '\t' then ['\\', 't']
  else if c = '\n' then ['\\', 'n']
  else if c = '\x0c' then ['\\', 'f']
  else if c = '\r' then ['\\', 'r']
  else if c.toNat < 32 then
    ['\\', 'u', '0', '0', (c.toNat / 16).digitChar, (c.toNat % 16).digitChar]
  else [c]

def quoted (s : String) : List Char := '"' :: s.toList.flatMap escape ++ ['"']

def newline (indent : Nat) : List Char := '\n' :: List.replicate indent ' '

mutual

def prettyAt (indent : Nat) : Json → List Char
  | null | unreadable => "null".toList
  | bool b => (if b then "true" else "false").toList
  | number n => n.text
  | string s => quoted s
  | array [] => ['[', ']']
  | array (x :: xs) =>
    '[' :: newline (indent + 2) ++ prettyAt (indent + 2) x ++ prettyItems (indent + 2) xs ++
      newline indent ++ [']']
  | object [] => ['\x7b', '\x7d']
  | object ((key, x) :: members) =>
    '\x7b' :: newline (indent + 2) ++ quoted key ++ [':', ' '] ++ prettyAt (indent + 2) x ++
      prettyMembers (indent + 2) members ++ newline indent ++ ['\x7d']

def prettyItems (indent : Nat) : List Json → List Char
  | [] => []
  | x :: xs => ',' :: newline indent ++ prettyAt indent x ++ prettyItems indent xs

def prettyMembers (indent : Nat) : List (String × Json) → List Char
  | [] => []
  | (key, x) :: members =>
    ',' :: newline indent ++ quoted key ++ [':', ' '] ++ prettyAt indent x ++
      prettyMembers indent members

end

def pretty (j : Json) : List Char := prettyAt 0 j

mutual

def compact : Json → List Char
  | null | unreadable => "null".toList
  | bool b => (if b then "true" else "false").toList
  | number n => n.text
  | string s => quoted s
  | array [] => ['[', ']']
  | array (x :: xs) => '[' :: compact x ++ compactItems xs ++ [']']
  | object [] => ['\x7b', '\x7d']
  | object ((key, x) :: members) =>
    '\x7b' :: quoted key ++ ':' :: compact x ++ compactMembers members ++ ['\x7d']

def compactItems : List Json → List Char
  | [] => []
  | x :: xs => ',' :: compact x ++ compactItems xs

def compactMembers : List (String × Json) → List Char
  | [] => []
  | (key, x) :: members => ',' :: quoted key ++ ':' :: compact x ++ compactMembers members

end

end Json
end WcagAudit
