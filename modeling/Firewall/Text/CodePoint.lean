/-!
# Code points of texts

A text is a sequence of code points, and a JSON or YAML escape may denote any
of them, a lone surrogate half among them.  A Lean character is a Unicode
scalar value, which leaves out the surrogates `0xD800`–`0xDFFF`, so a text
is kept as a string in which every code point is one character, except the
*paired* code points, each written as two characters: a *lead* and a
*trail*.  The paired code points are the surrogates and the leads and trails
themselves, `pairCount` of them in all, and there are `unitWidth` leads and
`unitWidth` trails, enough for `unitWidth * unitWidth ≥ pairCount` pairs.

Leads and trails never stand alone, so the writing is injective, and a text
found inside another starts and ends at whole code points: searching,
splitting and replacing texts needs no decoding.  `Text.ofCodePoint` writes
a code point, `Text.codePoints` reads the code points of a text back, and
`Text.encode` writes a string taken from outside, one character per code
point.  Where code points show (escapes, quoting, the order of texts,
positions in documents), they are read through `Text.codePoints`.

Main definitions:

- `Text.ofCodePoint`, `Text.encode`: writing code points;
- `Text.codePoints`: reading them back;
- `Text.scanForm`: one character per code point, for reading a document;
- `Text.codeOrder`: the order of texts by code points.
-/

namespace Firewall
namespace Text

/-- The first surrogate code point. -/
def surrogateFirst : Nat := 0xD800

/-- The number of surrogate code points. -/
def surrogateCount : Nat := 0x800

/-- Whether a code point is a surrogate half. -/
def isSurrogateCode (n : Nat) : Bool := surrogateFirst ≤ n && n < surrogateFirst + surrogateCount

/-- How many leads, and how many trails, there are. -/
def unitWidth : Nat := 47

/-- The first lead. -/
def leadFirst : Nat := 0x10D000

/-- The first trail. -/
def trailFirst : Nat := 0x10D030

/-- Whether a code point is a lead. -/
def isLead (n : Nat) : Bool := leadFirst ≤ n && n < leadFirst + unitWidth

/-- Whether a code point is a trail. -/
def isTrail (n : Nat) : Bool := trailFirst ≤ n && n < trailFirst + unitWidth

/-- Whether a code point is written as a lead and a trail. -/
def isPaired (n : Nat) : Bool := isSurrogateCode n || isLead n || isTrail n

/-- How many code points are written as pairs. -/
def pairCount : Nat := surrogateCount + 2 * unitWidth

/-- The number of a paired code point among the paired ones: surrogates
first, then leads, then trails. -/
def pairIndex (n : Nat) : Nat :=
  if isSurrogateCode n then n - surrogateFirst
  else if isLead n then surrogateCount + (n - leadFirst)
  else surrogateCount + unitWidth + (n - trailFirst)

/-- The paired code point of a number below `pairCount`. -/
def ofPairIndex (i : Nat) : Nat :=
  if i < surrogateCount then surrogateFirst + i
  else if i < surrogateCount + unitWidth then leadFirst + (i - surrogateCount)
  else trailFirst + (i - surrogateCount - unitWidth)

/-- The characters of a code point below `0x110000`, in order. -/
def unitChars (n : Nat) : List Char :=
  if isPaired n then
    let i := pairIndex n
    [Char.ofNat (leadFirst + i / unitWidth), Char.ofNat (trailFirst + i % unitWidth)]
  else [Char.ofNat n]

/-- The text of one code point below `0x110000`. -/
def ofCodePoint (n : Nat) : String := String.ofList (unitChars n)

/-- A string taken from outside, one character per code point, written as a
text. -/
def encode (s : String) : String := String.ofList (s.toList.flatMap fun c => unitChars c.toNat)

/-- The code points of characters: a lead and a trail that make a pair are
one code point, every other character is its own. -/
def codePointsOf : List Char → List Nat
  | [] => []
  | [a] => [a.toNat]
  | a :: b :: rest =>
    let i := (a.toNat - leadFirst) * unitWidth + (b.toNat - trailFirst)
    if isLead a.toNat && isTrail b.toNat && i < pairCount then ofPairIndex i :: codePointsOf rest
    else a.toNat :: codePointsOf (b :: rest)

/-- The code points of a text. -/
def codePoints (s : String) : List Nat := codePointsOf s.toList

/-- The replacement character, which stands for a surrogate in `scanForm`. -/
def replacementChar : Char := '\uFFFD'

/-- A text with one character per code point, as a document is read: each
surrogate becomes the replacement character. -/
def scanForm (s : String) : String :=
  String.ofList ((codePoints s).map fun n => if isSurrogateCode n then replacementChar else Char.ofNat n)

/-- How many code points a character completes: none for a lead, whose
trail completes its code point, one for any other character. -/
def width (c : Char) : Nat := if isLead c.toNat then 0 else 1

/-- Whether one list of code points comes before another or equals it: where
they first differ the first has the smaller code point, or it is a prefix of
the other. -/
def codesLe : List Nat → List Nat → Bool
  | [], _ => true
  | _ :: _, [] => false
  | a :: as, b :: bs => Nat.blt a b || (Nat.beq a b && codesLe as bs)

/-- Whether one text comes before another or equals it, code point by code point. -/
def codeOrder (a b : String) : Bool := codesLe (codePoints a) (codePoints b)

theorem toNat_ofNat_low {n : Nat} (h : n < 0xD800) : (Char.ofNat n).toNat = n := by
  rw [Char.ofNat, dif_pos (Or.inl h)]
  rfl

@[simp] theorem codePointsOf_nil : codePointsOf [] = [] := rfl

theorem unitChars_low (n : Nat) (h : n < 0xD800) : unitChars n = [Char.ofNat n] := by
  have hs : isSurrogateCode n = false := by
    unfold isSurrogateCode surrogateFirst surrogateCount
    have : ¬ (55296 ≤ n) := by omega
    simp [this]
  have hl : isLead n = false := by
    unfold isLead leadFirst
    have : ¬ (1101824 ≤ n) := by omega
    simp [this]
  have ht : isTrail n = false := by
    unfold isTrail trailFirst
    have : ¬ (1101872 ≤ n) := by omega
    simp [this]
  simp [unitChars, isPaired, hs, hl, ht]

theorem codePoints_ofCodePoint_low (n : Nat) (h : n < 0xD800) : codePoints (ofCodePoint n) = [n] := by
  simp [codePoints, ofCodePoint, unitChars_low n h, codePointsOf, toNat_ofNat_low h]

theorem codePoints_ofCodePoint_surrogate : codePoints (ofCodePoint 0xD800) = [0xD800] := by
  decide

theorem codePoints_ofCodePoint_lead : codePoints (ofCodePoint 0x10D000) = [0x10D000] := by
  decide

end Text
end Firewall
