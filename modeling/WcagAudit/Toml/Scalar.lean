import WcagAudit.Json.Basic
import WcagAudit.Time.Date
import WcagAudit.Toml.Basic

namespace WcagAudit.Toml

def isSpace (c : Char) : Bool := c == ' ' || c == '\t'

def skipSpace (t : List Char) : List Char := t.dropWhile isSpace

def isPlain (c : Char) : Bool := c == '\t' || (0x20 ≤ c.toNat && c.toNat ≠ 0x7F)

def escapedChar? : Char → Option Char
  | 'b' => some '\x08'
  | 't' => some '\t'
  | 'n' => some '\n'
  | 'f' => some '\x0c'
  | 'r' => some '\r'
  | '"' => some '"'
  | '\\' => some '\\'
  | _ => none

def charOfHex? (digits : List Char) : Option Char :=
  let n := ofHex digits
  if digits.all isHexDigit && (n < 0xD800 || 0xDFFF < n && n < 0x110000) then some (Char.ofNat n)
  else none

def addChar (c : Char) (read : Option (List Char × List Char)) : Option (List Char × List Char) :=
  read.map fun (s, rest) => (c :: s, rest)

def basicBody : List Char → Option (List Char × List Char)
  | [] => none
  | '"' :: t => some ([], t)
  | '\\' :: 'u' :: a :: b :: c :: d :: t =>
    (charOfHex? [a, b, c, d]).bind (addChar · (basicBody t))
  | '\\' :: 'U' :: a :: b :: c :: d :: e :: f :: g :: h :: t =>
    (charOfHex? [a, b, c, d, e, f, g, h]).bind (addChar · (basicBody t))
  | '\\' :: c :: t => (escapedChar? c).bind (addChar · (basicBody t))
  | c :: t => if isPlain c then addChar c (basicBody t) else none

/-- The characters up to three closing quotes, of which one or two more may stand before them. A
backslash at the end of a line removes the white space behind it, which `skipping` tells. -/
def multilineBody : (skipping : Bool) → List Char → Option (List Char × List Char)
  | _, [] => none
  | _, '"' :: '"' :: '"' :: '"' :: '"' :: t => some (['"', '"'], t)
  | _, '"' :: '"' :: '"' :: '"' :: t => some (['"'], t)
  | _, '"' :: '"' :: '"' :: t => some ([], t)
  | _, '\\' :: 'u' :: a :: b :: c :: d :: t =>
    (charOfHex? [a, b, c, d]).bind (addChar · (multilineBody false t))
  | _, '\\' :: 'U' :: a :: b :: c :: d :: e :: f :: g :: h :: t =>
    (charOfHex? [a, b, c, d, e, f, g, h]).bind (addChar · (multilineBody false t))
  | _, '\\' :: c :: t =>
    match escapedChar? c with
    | some c => addChar c (multilineBody false t)
    | none =>
      match skipSpace (c :: t) with
      | '\n' :: _ | '\r' :: '\n' :: _ => multilineBody true (c :: t)
      | _ => none
  | skipping, '\r' :: '\n' :: t =>
    if skipping then multilineBody true t else addChar '\n' (multilineBody false t)
  | skipping, c :: t =>
    if skipping && (isSpace c || c == '\n') then multilineBody true t
    else if isPlain c || c == '\n' then addChar c (multilineBody false t)
    else none

def literalBody : List Char → Option (List Char × List Char)
  | [] => none
  | '\x27' :: t => some ([], t)
  | c :: t => if isPlain c then addChar c (literalBody t) else none

def multilineLiteralBody : List Char → Option (List Char × List Char)
  | [] => none
  | '\x27' :: '\x27' :: '\x27' :: '\x27' :: '\x27' :: t => some (['\x27', '\x27'], t)
  | '\x27' :: '\x27' :: '\x27' :: '\x27' :: t => some (['\x27'], t)
  | '\x27' :: '\x27' :: '\x27' :: t => some ([], t)
  | '\r' :: '\n' :: t => addChar '\n' (multilineLiteralBody t)
  | c :: t => if isPlain c || c == '\n' then addChar c (multilineLiteralBody t) else none

def skipNewline : List Char → List Char
  | '\n' :: t | '\r' :: '\n' :: t => t
  | t => t

def string? : List Char → Option (List Char × List Char)
  | '"' :: '"' :: '"' :: t => multilineBody false (skipNewline t)
  | '"' :: t => basicBody t
  | '\x27' :: '\x27' :: '\x27' :: t => multilineLiteralBody (skipNewline t)
  | '\x27' :: t => literalBody t
  | _ => none

def moreDigits (ok : Char → Bool) : List Char → List Char × List Char
  | '_' :: c :: t =>
    if ok c then
      let (ds, rest) := moreDigits ok t
      (c :: ds, rest)
    else ([], '_' :: c :: t)
  | c :: t =>
    if ok c then
      let (ds, rest) := moreDigits ok t
      (c :: ds, rest)
    else ([], c :: t)
  | [] => ([], [])

def digits? (ok : Char → Bool) : List Char → Option (List Char × List Char)
  | c :: t =>
    if ok c then
      let (ds, rest) := moreDigits ok t
      some (c :: ds, rest)
    else none
  | [] => none

def decimal? : List Char → Option (List Char × List Char)
  | '0' :: t => some (['0'], t)
  | t => digits? Char.isDigit t

def sign : List Char → Bool × List Char
  | '-' :: t => (true, t)
  | '+' :: t => (false, t)
  | t => (false, t)

def fits (negative : Bool) (n : Nat) : Bool := if negative then n ≤ Nat.pow 2 63 else n < Nat.pow 2 63

def radix? (base : Nat) (ok : Char → Bool) (t : List Char) : Option (List Char) := do
  let (ds, rest) ← digits? ok t
  if fits false (ds.foldl (fun n c => base * n + hexValue c) 0) then return rest else none

def isOctal (c : Char) : Bool := '0' ≤ c && c ≤ '7'

def isBinary (c : Char) : Bool := c == '0' || c == '1'

def integer? : List Char → Option (List Char)
  | '0' :: 'x' :: t => radix? 16 isHexDigit t
  | '0' :: 'o' :: t => radix? 8 isOctal t
  | '0' :: 'b' :: t => radix? 2 isBinary t
  | t => do
    let (negative, t) := sign t
    let (ds, rest) ← decimal? t
    if fits negative (ofDecimal ds) then return rest else none

def fraction? : List Char → Option (List Char × List Char)
  | '.' :: t => digits? Char.isDigit t
  | _ => none

def exponent? : List Char → Option ((Bool × List Char) × List Char)
  | c :: t =>
    if c = 'e' || c = 'E' then do
      let (negative, t) := sign t
      let (ds, rest) ← digits? Char.isDigit t
      return ((negative, ds), rest)
    else none
  | [] => none

/-- A number with a fraction or an exponent. One that is too large is refused unless it is negative,
when it counts as infinite. -/
def float? (t : List Char) : Option (List Char) := do
  let (negative, t) := sign t
  let (whole, t) ← decimal? t
  let (fraction, t) := match fraction? t with
    | some (ds, t) => (some ds, t)
    | none => (none, t)
  let (exponent, t) := match exponent? t with
    | some (e, t) => (some e, t)
    | none => (none, t)
  let n : Numeral := { whole, fraction, exponent }
  if fraction.isNone && exponent.isNone then none
  else if negative || n.toFloat?.isSome then return t
  else none

def special? (t : List Char) : Option (List Char) :=
  match (sign t).2 with
  | 'i' :: 'n' :: 'f' :: t => some t
  | 'n' :: 'a' :: 'n' :: t => some t
  | _ => none

def twoDigits? (limit : Nat) : List Char → Option (List Char)
  | a :: b :: t =>
    if a.isDigit && b.isDigit && ofDecimal [a, b] < limit then some t else none
  | _ => none

def date? : List Char → Option (List Char)
  | a :: b :: c :: d :: '-' :: e :: f :: '-' :: g :: h :: t =>
    if [a, b, c, d, e, f, g, h].all Char.isDigit then
      (Date.of? (ofDecimal [a, b, c, d]) (ofDecimal [e, f]) (ofDecimal [g, h])).map fun _ => t
    else none
  | _ => none

def colon? : List Char → Option (List Char)
  | ':' :: t => some t
  | _ => none

def time? (t : List Char) : Option (List Char) := do
  let t ← twoDigits? 24 t
  let t ← colon? t
  let t ← twoDigits? 60 t
  let t ← colon? t
  let t ← twoDigits? 61 t
  match t with
  | '.' :: t => if (t.takeWhile Char.isDigit).isEmpty then none else some (t.dropWhile Char.isDigit)
  | t => some t

def offset? : List Char → Option (List Char)
  | c :: t =>
    if c = 'Z' || c = 'z' then some t
    else if c = '+' || c = '-' then do
      let t ← twoDigits? 24 t
      let t ← colon? t
      twoDigits? 60 t
    else none
  | [] => none

def timeOfDate (t : List Char) : List Char :=
  match t with
  | c :: r =>
    if c = 'T' || c = 't' || c = ' ' then
      match time? r with
      | some r => (offset? r).getD r
      | none => t
    else t
  | [] => t

def moment? (t : List Char) : Option (List Char) :=
  match date? t with
  | some t => some (timeOfDate t)
  | none => time? t

def scalar? (t : List Char) : Option (Toml × List Char) :=
  match t with
  | 't' :: 'r' :: 'u' :: 'e' :: t => some (.scalar, t)
  | 'f' :: 'a' :: 'l' :: 's' :: 'e' :: t => some (.scalar, t)
  | t =>
    match moment? t with
    | some t => some (.moment, t)
    | none => ((float? t).or ((special? t).or (integer? t))).map (.scalar, ·)

end WcagAudit.Toml
