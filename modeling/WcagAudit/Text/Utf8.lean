namespace WcagAudit.Utf8

def encode (t : List Char) : List UInt8 := t.flatMap String.utf8EncodeChar

def ofString (s : String) : List UInt8 := encode s.toList

/-- A character of which some bytes are read: the range of the next byte, how many follow behind it, and
the value so far. -/
structure Open where
  low : Nat
  high : Nat
  more : Nat
  value : Nat

def Open.grown (s : Open) (b : UInt8) : Nat := 64 * s.value + (b.toNat - 0x80)

/-- The first byte of a character. The ranges leave out what has a shorter form, surrogates, and values
that are too large. -/
def first (b : UInt8) : List (Option Char) × Option Open :=
  let n := b.toNat
  if n < 0x80 then ([some (Char.ofNat n)], none)
  else if n < 0xC2 then ([none], none)
  else if n < 0xE0 then ([], some ⟨0x80, 0xBF, 0, n - 0xC0⟩)
  else if n < 0xF0 then
    ([], some ⟨if n = 0xE0 then 0xA0 else 0x80, if n = 0xED then 0x9F else 0xBF, 1, n - 0xE0⟩)
  else if n < 0xF5 then
    ([], some ⟨if n = 0xF0 then 0x90 else 0x80, if n = 0xF4 then 0x8F else 0xBF, 2, n - 0xF0⟩)
  else ([none], none)

/-- A byte that does not go on with the open character starts the next one. -/
def next (s : Open) (b : UInt8) : List (Option Char) × Option Open :=
  if s.low ≤ b.toNat ∧ b.toNat ≤ s.high then
    match s.more with
    | 0 => ([some (Char.ofNat (s.grown b))], none)
    | more + 1 => ([], some ⟨0x80, 0xBF, more, s.grown b⟩)
  else
    let (found, s) := first b
    (none :: found, s)

/-- The characters that the bytes spell, and `none` for each longest run of bytes that only starts one. -/
def pieces : Option Open → List UInt8 → List (Option Char)
  | none, [] => []
  | some _, [] => [none]
  | none, b :: bs => (first b).1 ++ pieces (first b).2 bs
  | some s, b :: bs => (next s b).1 ++ pieces (next s b).2 bs

def decode? (bs : List UInt8) : Option (List Char) := (pieces none bs).mapM id

def decodeLossy (bs : List UInt8) : List Char := (pieces none bs).map (·.getD '\uFFFD')

end WcagAudit.Utf8
