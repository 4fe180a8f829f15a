import WcagAudit.Text.Blank

namespace WcagAudit

def digitValue (c : Char) : Nat := c.toNat - '0'.toNat

def ofDecimal (digits : List Char) : Nat := digits.foldl (fun n c => 10 * n + digitValue c) 0

def digitRuns (t : List Char) : List (List Char) :=
  (piecesBy (!Char.isDigit ·) t).filter (!·.isEmpty)

def toDecimal (n : Nat) : List Char := Nat.toDigits 10 n

def padLeft (width : Nat) (fill : Char) (t : List Char) : List Char :=
  List.replicate (width - t.length) fill ++ t

def padRight (width : Nat) (fill : Char) (t : List Char) : List Char :=
  t ++ List.replicate (width - t.length) fill

def toDecimalPadded (width n : Nat) : List Char := padLeft width '0' (toDecimal n)

def isHexDigit (c : Char) : Bool :=
  c.isDigit || ('a' ≤ c && c ≤ 'f') || ('A' ≤ c && c ≤ 'F')

def hexValue (c : Char) : Nat :=
  if c.isDigit then digitValue c
  else if c ≤ 'F' then c.toNat - 'A'.toNat + 10
  else c.toNat - 'a'.toNat + 10

def ofHex (digits : List Char) : Nat := digits.foldl (fun n c => 16 * n + hexValue c) 0

end WcagAudit
