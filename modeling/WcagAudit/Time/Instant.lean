import WcagAudit.Text.Blank
import WcagAudit.Text.Digits
import WcagAudit.Time.Date

/-!
Points in time, in UTC to the nanosecond, and their text. A leap second is the second 59 of its
minute with more than a whole second of nanoseconds. The reader takes some liberties with white
space and with the widths of fields; the printer does not.
-/

namespace WcagAudit

structure Instant where
  date : Date
  second : Nat
  nano : Nat
  second_lt : second < 86400
  nano_lt : nano < 2000000000
  leap : 1000000000 ≤ nano → second % 60 = 59
  deriving DecidableEq

namespace Instant

def epoch : Instant := ⟨.epoch, 0, 0, by decide, by decide, by decide⟩

def ofUnix (nanos : Nat) : Instant where
  date := Date.epoch.plus (nanos / 1000000000 / 86400)
  second := nanos / 1000000000 % 86400
  nano := nanos % 1000000000
  second_lt := by omega
  nano_lt := by omega
  leap := by omega

def yearText (year : Int) : List Char :=
  if 0 ≤ year && year ≤ 9999 then toDecimalPadded 4 year.natAbs
  else (if year < 0 then '-' else '+') :: toDecimalPadded 4 year.natAbs

/-- The fewest of 0, 3, 6 and 9 digits that lose nothing. -/
def fractionText (nano : Nat) : List Char :=
  if nano = 0 then []
  else if nano % 1000000 = 0 then '.' :: toDecimalPadded 3 (nano / 1000000)
  else if nano % 1000 = 0 then '.' :: toDecimalPadded 6 (nano / 1000)
  else '.' :: toDecimalPadded 9 nano

def text (i : Instant) : List Char :=
  yearText i.date.year ++ '-' :: toDecimalPadded 2 i.date.month ++
    '-' :: toDecimalPadded 2 i.date.day ++ 'T' :: toDecimalPadded 2 (i.second / 3600) ++
    ':' :: toDecimalPadded 2 (i.second / 60 % 60) ++
    ':' :: toDecimalPadded 2 (i.second % 60 + i.nano / 1000000000) ++
    fractionText (i.nano % 1000000000) ++ ['Z']

def number? (width : Nat) (t : List Char) : Option (Nat × List Char) :=
  match (t.take width).takeWhile Char.isDigit with
  | [] => none
  | ds => some (ofDecimal ds, t.drop ds.length)

def field? (t : List Char) : Option (Nat × List Char) := number? 2 (trimStart t)

def year? (t : List Char) : Option (Int × List Char) :=
  match trimStart t with
  | '-' :: t => (number? t.length t).map fun (n, t) => (-(n : Int), t)
  | '+' :: t => (number? t.length t).map fun (n, t) => ((n : Int), t)
  | t => (number? 4 t).map fun (n, t) => ((n : Int), t)

def mark? (c : Char) (t : List Char) : Option (List Char) :=
  match trimStart t with
  | d :: t => if c = d then some t else none
  | [] => none

def date? (t : List Char) : Option (Date × List Char) := do
  let (year, t) ← year? t
  let t ← mark? '-' t
  let (month, t) ← field? t
  let t ← mark? '-' t
  let (day, t) ← field? t
  let date ← Date.of? year month day
  if date.inRange then return (date, t) else none

def separator? : List Char → Option (List Char)
  | c :: t => if c = 'T' || c = 't' || c = ' ' then some t else none
  | [] => none

/-- The digits behind the ninth say nothing. -/
def fraction? : List Char → Option (Nat × List Char)
  | '.' :: t =>
    match t.takeWhile Char.isDigit with
    | [] => none
    | ds =>
      let first := ds.take 9
      some (ofDecimal first * Nat.pow 10 (9 - first.length), t.dropWhile Char.isDigit)
  | t => some (0, t)

structure Clock where
  second : Nat
  nano : Nat
  second_lt : second < 86400
  nano_lt : nano < 2000000000
  leap : 1000000000 ≤ nano → second % 60 = 59

/-- The sixtieth second of a minute is a leap second. -/
def Clock.of? (hour minute second nano : Nat) : Option Clock :=
  if h : hour < 24 ∧ minute < 60 ∧ nano < 1000000000 then
    if hs : second < 60 then
      some ⟨hour * 3600 + minute * 60 + second, nano, by omega, by omega, by omega⟩
    else if second = 60 then
      some ⟨hour * 3600 + minute * 60 + 59, nano + 1000000000, by omega, by omega, by omega⟩
    else none
  else none

def clock? (t : List Char) : Option (Clock × List Char) := do
  let (hour, t) ← field? t
  let t ← mark? ':' t
  let (minute, t) ← field? t
  let t ← mark? ':' t
  let (second, t) ← field? t
  let (nano, t) ← fraction? t
  let clock ← Clock.of? hour minute second nano
  return (clock, t)

def isMinus (c : Char) : Bool := c == '-' || c == '\u2212'

def offsetSize? : List Char → Option (Nat × List Char)
  | a :: b :: t =>
    if a.isDigit && b.isDigit then
      match t.dropWhile fun c => c == ':' || isBlank c with
      | c :: d :: t =>
        if c.isDigit && d.isDigit then
          let minutes := ofDecimal [c, d]
          let total := ofDecimal [a, b] * 60 + minutes
          if minutes < 60 && total < 1440 then some (total, t) else none
        else none
      | _ => none
    else none
  | _ => none

def offset? : List Char → Option (Int × List Char)
  | a :: b :: c :: t =>
    if [a, b, c].map Char.toLower = ['u', 't', 'c'] then some (0, t) else numeric? (a :: b :: c :: t)
  | t => numeric? t
where
  numeric? : List Char → Option (Int × List Char)
    | c :: t =>
      if c = 'Z' || c = 'z' then some (0, t)
      else if c = '+' then (offsetSize? t).map fun (n, t) => ((n : Int), t)
      else if isMinus c then (offsetSize? t).map fun (n, t) => (-(n : Int), t)
      else none
    | [] => none

def ofLocal (date : Date) (clock : Clock) (minutes : Int) : Instant :=
  let second : Int := clock.second - 60 * minutes
  let date := if second < 0 then date.previous else if second < 86400 then date else date.next
  ⟨date, (second % 86400).toNat, clock.nano, by omega, clock.nano_lt,
    fun h => by have := clock.leap h; omega⟩

def ofText? (t : List Char) : Option Instant := do
  let (date, t) ← date? t
  let t ← separator? t
  let (clock, t) ← clock? t
  let (minutes, t) ← offset? (trimStart t)
  let instant := ofLocal date clock minutes
  if (trimStart t).isEmpty && instant.date.inRange then return instant else none

end Instant
end WcagAudit
