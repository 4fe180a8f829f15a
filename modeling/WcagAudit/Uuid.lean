import WcagAudit.Text.Digits
import WcagAudit.Text.LetterCase

namespace WcagAudit

structure Uuid where
  digits : List (Fin 16)
  length_digits : digits.length = 32
  deriving DecidableEq

namespace Uuid

def unset : Uuid := ⟨List.replicate 32 0, by simp⟩

def ofRandom (n : Nat) : Uuid where
  digits := (List.range 32).map fun i =>
    let digit := n / Nat.pow 16 (31 - i) % 16
    Fin.ofNat 16 (if i = 12 then 4 else if i = 16 then 8 + digit % 4 else digit)
  length_digits := by simp

def groups : List Nat := [8, 4, 4, 4, 12]

def hyphenate : List Nat → List Char → List Char
  | [], t => t
  | [_], t => t
  | n :: ns, t => t.take n ++ '-' :: hyphenate ns (t.drop n)

def digitText (u : Uuid) : List Char := u.digits.map fun d => d.val.digitChar

def text (u : Uuid) : List Char := hyphenate groups u.digitText

def ofDigits? (t : List Char) : Option Uuid :=
  if t.all isHexDigit then
    let digits := t.map fun c => Fin.ofNat 16 (hexValue c)
    if h : digits.length = 32 then some ⟨digits, h⟩ else none
  else none

/-- Hyphens stand where `text` puts them. -/
def ofHyphenated? (t : List Char) : Option Uuid :=
  let bare := t.filter (· != '-')
  if hyphenate groups bare = t then ofDigits? bare else none

def namePrefix : List Char := "urn:uuid:".toList

/-- The digits alone, in groups, and the groups in braces or behind `namePrefix`, whose letters may be
capitals. -/
def ofText? (t : List Char) : Option Uuid :=
  match ofDigits? t with
  | some u => some u
  | none =>
    if sameAscii (t.take namePrefix.length) namePrefix then ofHyphenated? (t.drop namePrefix.length)
    else match t with
      | '\x7b' :: t => if t.getLast? = some '\x7d' then ofHyphenated? t.dropLast else none
      | t => ofHyphenated? t

end Uuid
end WcagAudit
