namespace WcagAudit

structure Rgb where
  red : UInt8
  green : UInt8
  blue : UInt8
  deriving DecidableEq, Repr

namespace Rgb

def ofNat (n : Nat) : Rgb := ⟨(n / 65536).toUInt8, (n / 256).toUInt8, n.toUInt8⟩

def channels (c : Rgb) : List UInt8 := [c.red, c.green, c.blue]

def clamp (low high x : Float) : Float :=
  if x < low then low else if x > high then high else x

def modTwo (x : Float) : Float := if x < 2 then x else if x < 4 then x - 2 else x - 4

def channel (share : Float) : UInt8 := (clamp 0 255 (share * 255).round).toUInt8

/-- Hue in degrees, saturation and lightness in percent. A hue outside `[0, 360)` is grey; the other
two are cut to `[0, 100]`. -/
def ofHsl (hue saturation lightness : Float) : Rgb :=
  let s := clamp 0 1 (saturation / 100)
  let l := clamp 0 1 (lightness / 100)
  let c := (1 - (2 * l - 1).abs) * s
  let x := c * (1 - (modTwo (hue / 60) - 1).abs)
  let m := l - c / 2
  let shares : Float × Float × Float :=
    if !(0 ≤ hue && hue < 360) then (0, 0, 0)
    else if hue < 60 then (c, x, 0)
    else if hue < 120 then (x, c, 0)
    else if hue < 180 then (0, c, x)
    else if hue < 240 then (0, x, c)
    else if hue < 300 then (x, 0, c)
    else (c, 0, x)
  ⟨channel (shares.1 + m), channel (shares.2.1 + m), channel (shares.2.2 + m)⟩

def linear (channel : UInt8) : Float :=
  let v := channel.toNat.toFloat / 255
  if v ≤ 0.03928 then v / 12.92 else ((v + 0.055) / 1.055).pow 2.4

def luminance (c : Rgb) : Float :=
  0.2126 * linear c.red + 0.7152 * linear c.green + 0.0722 * linear c.blue

def contrast (c d : Rgb) : Float :=
  let (lighter, darker) :=
    if c.luminance > d.luminance then (c.luminance, d.luminance) else (d.luminance, c.luminance)
  (lighter + 0.05) / (darker + 0.05)

def enoughForText : Float := 4.5

end Rgb
end WcagAudit
