import WcagAudit.Json.Basic

/-!
Reading JSON text. The grammar is taken strictly: no comments, no trailing commas, no bare control
characters in strings. Escapes of unpaired surrogates are well-formed, but what holds them is
unreadable.
-/

namespace WcagAudit.Json

def isSpace (c : Char) : Bool := c == ' ' || c == '\t' || c == '\n' || c == '\r'

def skipSpace (t : List Char) : List Char := t.dropWhile isSpace

inductive StringPiece where
  | char (c : Char)
  | unit (n : Nat)

def escapedChar? : Char → Option Char
  | '"' => some '"'
  | '\\' => some '\\'
  | '/' => some '/'
  | 'b' => some '\x08'
  | 'f' => some '\x0c'
  | 'n' => some '\n'
  | 'r' => some '\r'
  | 't' => some '\t'
  | _ => none

def stringPieces : List Char → Option (List StringPiece × List Char)
  | [] => none
  | '"' :: rest => some ([], rest)
  | '\\' :: 'u' :: a :: b :: c :: d :: rest =>
    if [a, b, c, d].all isHexDigit then
      (stringPieces rest).map fun (pieces, rest) => (.unit (ofHex [a, b, c, d]) :: pieces, rest)
    else none
  | '\\' :: c :: rest =>
    match escapedChar? c with
    | some c => (stringPieces rest).map fun (pieces, rest) => (.char c :: pieces, rest)
    | none => none
  | c :: rest =>
    if c.toNat < 32 then none
    else (stringPieces rest).map fun (pieces, rest) => (.char c :: pieces, rest)

def isHighSurrogate (n : Nat) : Bool := 0xD800 ≤ n && n < 0xDC00

def isLowSurrogate (n : Nat) : Bool := 0xDC00 ≤ n && n < 0xE000

/-- Two units that form a pair are one character; a surrogate without its partner is none. -/
def charsOfPieces? : List StringPiece → Option (List Char)
  | [] => some []
  | .char c :: pieces => (charsOfPieces? pieces).map (c :: ·)
  | .unit high :: .unit low :: pieces =>
    if isHighSurrogate high && isLowSurrogate low then
      let c := Char.ofNat (0x10000 + (high - 0xD800) * 0x400 + (low - 0xDC00))
      (charsOfPieces? pieces).map (c :: ·)
    else if isHighSurrogate high || isLowSurrogate high then none
    else (charsOfPieces? (.unit low :: pieces)).map (Char.ofNat high :: ·)
  | .unit n :: pieces =>
    if isHighSurrogate n || isLowSurrogate n then none
    else (charsOfPieces? pieces).map (Char.ofNat n :: ·)

def stringBody? (t : List Char) : Option (Option String × List Char) :=
  (stringPieces t).map fun (pieces, rest) => ((charsOfPieces? pieces).map String.ofList, rest)

def digits (t : List Char) : List Char × List Char :=
  (t.takeWhile Char.isDigit, t.dropWhile Char.isDigit)

def wholePart? (t : List Char) : Option (List Char × List Char) :=
  match digits t with
  | ([], _) => none
  | ('0' :: _ :: _, _) => none
  | (whole, rest) => some (whole, rest)

def fraction? : List Char → Option (Option (List Char) × List Char)
  | '.' :: t =>
    match digits t with
    | ([], _) => none
    | (ds, rest) => some (some ds, rest)
  | t => some (none, t)

def exponentDigits? (negative : Bool) (t : List Char) :
    Option (Option (Bool × List Char) × List Char) :=
  match digits t with
  | ([], _) => none
  | (ds, rest) => some (some (negative, ds), rest)

def exponent? : List Char → Option (Option (Bool × List Char) × List Char)
  | c :: t =>
    if c = 'e' || c = 'E' then
      match t with
      | '+' :: t => exponentDigits? false t
      | '-' :: t => exponentDigits? true t
      | t => exponentDigits? false t
    else some (none, c :: t)
  | [] => some (none, [])

def unsigned? (negative : Bool) (t : List Char) : Option (Numeral × List Char) := do
  let (whole, t) ← wholePart? t
  let (fraction, t) ← fraction? t
  let (exponent, t) ← exponent? t
  return ({ negative, whole, fraction, exponent }, t)

def numeral? : List Char → Option (Numeral × List Char)
  | '-' :: t => unsigned? true t
  | t => unsigned? false t

/-- An object with an unreadable key is unreadable. -/
def ofMembers (members : List (Option String × Json)) : Json :=
  match members.mapM fun (key, value) => key.map (·, value) with
  | some members => object members
  | none => unreadable

mutual

def value? : (fuel : Nat) → List Char → Option (Json × List Char)
  | 0, _ => none
  | fuel + 1, t =>
    match skipSpace t with
    | 'n' :: 'u' :: 'l' :: 'l' :: rest => some (null, rest)
    | 't' :: 'r' :: 'u' :: 'e' :: rest => some (bool true, rest)
    | 'f' :: 'a' :: 'l' :: 's' :: 'e' :: rest => some (bool false, rest)
    | '"' :: rest => (stringBody? rest).map fun (s, rest) => (s.elim unreadable string, rest)
    | '[' :: rest =>
      match skipSpace rest with
      | ']' :: rest => some (array [], rest)
      | _ => (items? fuel rest).map fun (xs, rest) => (array xs, rest)
    | '\x7b' :: rest =>
      match skipSpace rest with
      | '\x7d' :: rest => some (object [], rest)
      | _ => (members? fuel rest).map fun (xs, rest) => (ofMembers xs, rest)
    | t => (numeral? t).map fun (n, rest) => (number n, rest)

def items? : (fuel : Nat) → List Char → Option (List Json × List Char)
  | 0, _ => none
  | fuel + 1, t => do
    let (x, t) ← value? fuel t
    match skipSpace t with
    | ']' :: rest => return ([x], rest)
    | ',' :: rest => do
      let (xs, rest) ← items? fuel rest
      return (x :: xs, rest)
    | _ => none

def members? : (fuel : Nat) → List Char → Option (List (Option String × Json) × List Char)
  | 0, _ => none
  | fuel + 1, t =>
    match skipSpace t with
    | '"' :: rest => do
      let (key, t) ← stringBody? rest
      match skipSpace t with
      | ':' :: rest => do
        let (x, t) ← value? fuel rest
        match skipSpace t with
        | '\x7d' :: rest => return ([(key, x)], rest)
        | ',' :: rest => do
          let (xs, rest) ← members? fuel rest
          return ((key, x) :: xs, rest)
        | _ => none
      | _ => none
    | _ => none

end

def parse? (t : List Char) : Option Json :=
  match value? (2 * t.length + 2) t with
  | some (j, rest) => if (skipSpace rest).isEmpty then some j else none
  | none => none

end WcagAudit.Json
