import WcagAudit.Text.Digits

namespace WcagAudit

def roundQuotient (num den : Nat) : Nat :=
  let low := num / den
  let twice := 2 * (num % den)
  if twice < den then low else if den < twice then low + 1 else low + low % 2

inductive Exact where
  | finite (negative : Bool) (num den : Nat)
  | infinite (negative : Bool)
  | undefined

def Exact.ofFloat (x : Float) : Exact :=
  let bits := x.toBits.toNat
  let negative := bits / Nat.pow 2 63 == 1
  let exponent := bits / Nat.pow 2 52 % 2048
  let mantissa := bits % Nat.pow 2 52
  if exponent = 2047 then
    if mantissa = 0 then .infinite negative else .undefined
  else if exponent = 0 then .finite negative mantissa (Nat.pow 2 1074)
  else if exponent < 1075 then .finite negative (Nat.pow 2 52 + mantissa) (Nat.pow 2 (1075 - exponent))
  else .finite negative ((Nat.pow 2 52 + mantissa) * Nat.pow 2 (exponent - 1075)) 1

def withPoint (places units : Nat) : List Char :=
  let scale := Nat.pow 10 places
  toDecimal (units / scale) ++ '.' :: toDecimalPadded places (units % scale)

def Exact.fixed (places : Nat) : Exact → List Char
  | .finite negative num den =>
    (if negative then ['-'] else []) ++
      withPoint places (roundQuotient (num * Nat.pow 10 places) den)
  | .infinite negative => if negative then "-inf".toList else "inf".toList
  | .undefined => "NaN".toList

def fixedDecimal (places : Nat) (x : Float) : String :=
  String.ofList ((Exact.ofFloat x).fixed places)

end WcagAudit
