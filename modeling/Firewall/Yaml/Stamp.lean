import Firewall.Fault

/-!
# Timestamps in YAML texts

A timestamp is a date `YYYY-M-D` (month and day of one or two digits),
optionally followed by `T`, `t` or blanks and a time `H:MM:SS`, a fraction of
a second after a point, and a zone: `Z`, or a sign, hours of one or two digits
and optionally `:MM`.  Texts that are to read as timestamps without a tag
must write a bare date with two-digit month and day.

A timestamp denotes a date or a time only if its fields are in range: years
1 to 9999, months 1 to 12, days within the month (February has 29 days in
years divisible by 4, except centuries not divisible by 400), hours below 24,
minutes and seconds below 60, and zones less than a day from UTC.  The zone is
checked first, then the fields in order; the fraction keeps six digits.
-/

namespace Firewall
namespace Yaml

/-- The zone of a time: UTC written `Z`, or an offset. -/
inductive ZoneText where
  | utc
  | offset (negative : Bool) (hours minutes : Nat)
deriving Repr, DecidableEq, Inhabited

/-- The time part of a timestamp text. -/
structure TimeText where
  hour : Nat
  minute : Nat
  second : Nat
  fraction : List Char
  zone : Option ZoneText
deriving Repr, DecidableEq, Inhabited

/-- The fields of a timestamp text, and whether its month or day has one digit. -/
structure StampText where
  year : Nat
  month : Nat
  day : Nat
  shortDate : Bool
  time : Option TimeText
deriving Repr, DecidableEq, Inhabited

namespace StampText

/-- The value of decimal digits. -/
def digitsValue (ds : List Char) : Nat := ds.foldl (fun acc d => acc * 10 + (d.toNat - '0'.toNat)) 0

/-- Whether what is left ends the text: nothing, or one final line feed. -/
def ends (cs : List Char) : Bool := cs.isEmpty || cs == ['\n']

/-- One or two digits, as many as there are. -/
def oneOrTwo : List Char → Option (List Char × List Char)
  | a :: b :: rest => if a.isDigit then (if b.isDigit then some ([a, b], rest) else some ([a], b :: rest)) else none
  | [a] => if a.isDigit then some ([a], []) else none
  | [] => none

/-- Exactly two digits. -/
def two : List Char → Option (List Char × List Char)
  | a :: b :: rest => if a.isDigit && b.isDigit then some ([a, b], rest) else none
  | _ => none

/-- The zone after a time, up to the end. -/
def zone (cs : List Char) : Option (Option ZoneText) :=
  if ends cs then some none
  else
    match cs.dropWhile (fun c => c == ' ' || c == '\t') with
    | 'Z' :: rest => if ends rest then some (some .utc) else none
    | s :: rest =>
      if s == '-' || s == '+' then do
        let (h, rest) ← oneOrTwo rest
        match rest with
        | ':' :: more =>
          let (m, rest) ← two more
          if ends rest then some (some (.offset (s == '-') (digitsValue h) (digitsValue m))) else none
        | _ => if ends rest then some (some (.offset (s == '-') (digitsValue h) 0)) else none
      else none
    | [] => none

/-- The time part of a timestamp, up to the end. -/
def timePart (cs : List Char) : Option TimeText := do
  let (h, rest) ← oneOrTwo cs
  let rest ← match rest with | ':' :: r => some r | _ => none
  let (m, rest) ← two rest
  let rest ← match rest with | ':' :: r => some r | _ => none
  let (s, rest) ← two rest
  let (fraction, rest) := match rest with
    | '.' :: r => (r.takeWhile Char.isDigit, r.dropWhile Char.isDigit)
    | r => ([], r)
  let z ← zone rest
  pure ⟨digitsValue h, digitsValue m, digitsValue s, fraction, z⟩

/-- Read a timestamp text. -/
def read? (cs : List Char) : Option StampText := do
  let (y, rest) ← match cs with
    | a :: b :: c :: d :: '-' :: rest =>
      if a.isDigit && b.isDigit && c.isDigit && d.isDigit then some ([a, b, c, d], rest) else none
    | _ => none
  let (mo, rest) ← oneOrTwo rest
  let rest ← match rest with | '-' :: r => some r | _ => none
  let (d, rest) ← oneOrTwo rest
  let short := mo.length < 2 || d.length < 2
  let date : StampText := ⟨digitsValue y, digitsValue mo, digitsValue d, short, none⟩
  if ends rest then pure date
  else
    let afterSep ← match rest with
      | 'T' :: r | 't' :: r => some r
      | c :: r => if c == ' ' || c == '\t' then some (r.dropWhile (fun c => c == ' ' || c == '\t')) else none
      | [] => none
    let t ← timePart afterSep
    pure { date with time := some t }

/-- Whether a year is a leap year. -/
def leap (y : Nat) : Bool := y % 4 == 0 && (y % 100 != 0 || y % 400 == 0)

/-- The number of days of a month. -/
def monthDays (y m : Nat) : Nat :=
  if m == 2 then (if leap y then 29 else 28)
  else if m == 4 || m == 6 || m == 9 || m == 11 then 30 else 31

/-- Check the date fields. -/
def checkDate (y m d : Nat) : Except Fault Unit := do
  if y < 1 || y > 9999 then throw (.badStamp ("year " ++ toString y ++ " is out of range"))
  if m < 1 || m > 12 then throw (.badStamp "month must be in 1..12")
  if d < 1 || d > monthDays y m then throw (.badStamp "day is out of range for month")

/-- The microseconds of a fraction: its first six digits, padded with zeros. -/
def micro (fraction : List Char) : Nat :=
  let six := fraction.take 6
  digitsValue (six ++ List.replicate (6 - six.length) '0')

/-- The offset of a zone in minutes, if it is less than a day from UTC. -/
def offsetOf : Option ZoneText → Except Fault (Option Int)
  | none => pure none
  | some .utc => pure (some 0)
  | some (.offset negative h m) =>
    let minutes : Int := if negative then -((h * 60 + m : Nat) : Int) else ((h * 60 + m : Nat) : Int)
    if minutes.natAbs ≥ 1440 then throw (.offsetRange minutes) else pure (some minutes)

/-- The date or time a timestamp text denotes. -/
def toStamp (t : StampText) : Except Fault Stamp :=
  match t.time with
  | none => do
    checkDate t.year t.month t.day
    pure ⟨t.year, t.month, t.day, none⟩
  | some c => do
    let offset ← offsetOf c.zone
    checkDate t.year t.month t.day
    if c.hour > 23 then throw (.badStamp "hour must be in 0..23")
    if c.minute > 59 then throw (.badStamp "minute must be in 0..59")
    if c.second > 59 then throw (.badStamp "second must be in 0..59")
    pure ⟨t.year, t.month, t.day, some ⟨c.hour, c.minute, c.second, micro c.fraction, offset⟩⟩

end StampText

@[simp] theorem StampText.micro_nil : StampText.micro [] = 0 := by decide

end Yaml
end Firewall
