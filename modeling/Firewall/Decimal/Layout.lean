import Firewall.Decimal.Shortest

/-!
# Layout of a double's shortest digits

The shortest digits of `Decimal.Shortest` are laid out positionally when the
decimal point falls within a window around the digits, and in scientific form
otherwise.  Positional text shows a fractional part (`2.0`) unless the layout
leaves it off for whole numbers (`2`, as the parts of complex numbers are
written); scientific text writes a signed exponent of at least two digits
(`1e+16`, `1.5e-05`).  The window, the fractional part of whole numbers and
the words for NaN and infinity are a `Layout` record.
-/

namespace Firewall
namespace Decimal

/-- How a double is written: positional when the decimal point position `p`
(digits `d₁d₂…` stand for `0.d₁d₂… * 10^p`) satisfies `lowest < p ≤ highest`. -/
structure Layout where
  lowest : Int
  highest : Int
  nan : String
  infinity : String
  wholeMark : Bool

/-- Config values: `nan`, `inf`, positional for points in `(-4, 16]`. -/
def Layout.value : Layout := ⟨-4, 16, "nan", "inf", true⟩

/-- JSON documents: `NaN`, `Infinity`, the same window. -/
def Layout.json : Layout := ⟨-4, 16, "NaN", "Infinity", true⟩

/-- The parts of complex numbers: as config values, without `.0` for whole numbers. -/
def Layout.part : Layout := ⟨-4, 16, "nan", "inf", false⟩

/-- The digits of a decimal as characters. -/
def Dec.digitText (d : Dec) : String :=
  String.ofList (Nat.toDigits 10 d.digits)

/-- Lay out a nonzero normalized decimal. -/
def Layout.decimal (l : Layout) (d : Dec) : String :=
  let ds := d.digitText
  let n : Int := ds.length
  let point := n + d.exp
  if l.lowest < point ∧ point ≤ l.highest then
    if point ≤ 0 then
      "0." ++ String.ofList (List.replicate (-point).toNat '0') ++ ds
    else if point ≥ n then
      ds ++ String.ofList (List.replicate (point - n).toNat '0') ++ (if l.wholeMark then ".0" else "")
    else
      String.ofList (ds.toList.take point.toNat) ++ "." ++ String.ofList (ds.toList.drop point.toNat)
  else
    let e := point - 1
    let mant :=
      match ds.toList with
      | [] => "0"
      | [c] => c.toString
      | c :: rest => c.toString ++ "." ++ String.ofList rest
    let sign := if e < 0 then "-" else "+"
    let eDigits := Nat.toDigits 10 e.natAbs
    let ePadded := if eDigits.length < 2 then '0' :: eDigits else eDigits
    mant ++ "e" ++ sign ++ String.ofList ePadded

/-- The text of a double given by its bits. -/
def Layout.bitsText (l : Layout) (bits : UInt64) : String :=
  let negative := (bits >>> 63) == 1
  let e := ((bits >>> 52) &&& 0x7FF).toNat
  let f := (bits &&& 0xFFFFFFFFFFFFF).toNat
  let sign := if negative then "-" else ""
  if e == 0x7FF then
    if f == 0 then sign ++ l.infinity else l.nan
  else
    let x := Binary.ofBits bits
    if x.m = 0 then sign ++ (if l.wholeMark then "0.0" else "0") else sign ++ l.decimal x.shortest

/-- The text of a double. -/
def Layout.floatText (l : Layout) (x : Float) : String :=
  l.bitsText x.toBits

end Decimal
end Firewall
