import WcagAudit.Color.Rgb
import WcagAudit.Pattern.Search
import WcagAudit.Text.Digits

/-!
Colour literals: hexadecimal, `rgb()` and `hsl()`. A shorthand of three hexadecimal digits is not
doubled: `#fff` has the value `0x000fff`. White space around a literal does not count.
-/

namespace WcagAudit.Color

open Pattern

inductive Mode where
  | hex
  | rgb
  | hsl
  | unknown
  deriving DecidableEq, Repr

def Mode.name : Mode → String
  | hex => "hex"
  | rgb => "rgb"
  | hsl => "hsl"
  | unknown => "unknown"

def hexTriple : Pattern := one isHexDigit ++ one isHexDigit ++ one isHexDigit

def hexLiteral : Pattern := char '#' ++ hexTriple ++ optional hexTriple

def numeral : Pattern := digit ++ optional (digit ++ optional digit)

def comma : Pattern := blanks ++ char ',' ++ blanks

def alpha : Pattern := many Char.isDigit ++ optional (char '.' ++ digit ++ many Char.isDigit)

def functional (name : String) : Pattern :=
  exactly name ++ optional (char 'a') ++ char '(' ++ blanks

/-- Without an alpha there is no white space before the closing bracket. -/
def rgbLiteral : Pattern :=
  functional "rgb" ++ numeral ++ comma ++ numeral ++ comma ++ numeral ++
    optional (comma ++ alpha ++ blanks) ++ char ')'

def hslLiteral : Pattern :=
  functional "hsl" ++ numeral ++ comma ++ numeral ++ char '%' ++ comma ++ numeral ++ char '%' ++
    blanks ++ optional (char ',' ++ blanks ++ alpha ++ blanks) ++ char ')'

def detect (t : List Char) : Mode :=
  let t := trim t
  if hexLiteral.covers t then .hex
  else if rgbLiteral.covers t then .rgb
  else if hslLiteral.covers t then .hsl
  else .unknown

structure Unsupported where
  text : List Char
  deriving DecidableEq

def Unsupported.message (e : Unsupported) : String :=
  "Unsupported color format: " ++ String.ofList e.text

def ofHexLiteral (t : List Char) : Except Unsupported Rgb :=
  let t := trim t
  if hexLiteral.covers t then .ok (Rgb.ofNat (ofHex (t.drop 1))) else .error ⟨t⟩

def number? (digits : List Char) : Option Nat :=
  let n := ofDecimal digits
  if n < UInt32.size then some n else none

/-- The first three numbers in a text.  Behind them may be those of an alpha. -/
def leading? (t : List Char) : Option (Nat × Nat × Nat) :=
  match digitRuns t with
  | a :: b :: c :: _ => do return (← number? a, ← number? b, ← number? c)
  | _ => none

def ofChannels? (r g b : Nat) : Option Rgb :=
  if r < 256 && g < 256 && b < 256 then some ⟨r.toUInt8, g.toUInt8, b.toUInt8⟩ else none

def ofRgbLiteral? (t : List Char) : Option Rgb := do
  let (r, g, b) ← leading? t
  ofChannels? r g b

def ofHslLiteral? (t : List Char) : Option Rgb := do
  let (h, s, l) ← leading? t
  return Rgb.ofHsl h.toFloat s.toFloat l.toFloat

def convert (t : List Char) : Except Unsupported Rgb :=
  match detect t with
  | .hex => ofHexLiteral t
  | .rgb => (ofRgbLiteral? t).elim (.error ⟨t⟩) .ok
  | .hsl => (ofHslLiteral? t).elim (.error ⟨t⟩) .ok
  | .unknown => .error ⟨t⟩

structure Comparison where
  first : List Char
  second : List Char
  ratio : Float

def Comparison.passes (c : Comparison) : Bool := c.ratio ≥ Rgb.enoughForText

def Comparison.message : String := "computed contrast ratio"

def compare (first second : List Char) : Except Unsupported Comparison := do
  let c ← convert first
  let d ← convert second
  return ⟨first, second, c.contrast d⟩

structure Check where
  answer : Except Unsupported Bool
  told : List Comparison

def check (first second : List Char) : Check :=
  match compare first second with
  | .ok c => { answer := .ok c.passes, told := [c] }
  | .error e => { answer := .error e, told := [] }

end WcagAudit.Color
