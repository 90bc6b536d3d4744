import Firewall.Yaml.Stamp
import Firewall.Text.Integer

/-!
# Clock readings

The clock gives its readings as texts in the format `%Y-%m-%dT%H:%M:%S`, and
an archive is named after the reading it was made at.  A reading is matched
against the format from its start: each field takes the first of its forms
that lets the rest of the format match, the letter `T` matches in either
case, and a digit is a decimal digit of any script.

- year: four digits;
- month: `1` then `0`–`2`, `0` then `1`–`9`, or `1`–`9`;
- day: `3` then `0`–`1`, `1`–`2` then a digit, `0` then `1`–`9`, `1`–`9`, or
  a blank then `1`–`9`;
- hour: `2` then `0`–`3`, `0`–`1` then a digit, or a digit;
- minute: `0`–`5` then a digit, or a digit;
- second: `6` then `0`–`1`, `0`–`5` then a digit, or a digit.

A reading that does not match fails, and so does one with text left after
the match; then the date must exist and the second be at most 59.  The stamp
of a reading is `YYYYMMDDTHHMMSS`, the year without leading zeros and the
other fields in two digits.

Main definitions:

- `Clock.fields`: the six fields of a reading;
- `Clock.stamp`: the stamp of a reading.
-/

namespace Firewall
namespace Clock

/-- The format of clock readings. -/
def format : String := "%Y-%m-%dT%H:%M:%S"

/-- A test of one character. -/
abbrev CharTest := Char → Bool

/-- A decimal digit of any script. -/
def digit : CharTest := fun c => (Text.decimalValue c).isSome

/-- An ASCII character in a range. -/
def within (lo hi : Char) : CharTest := fun c => lo ≤ c && c ≤ hi

/-- One character. -/
def just (x : Char) : CharTest := fun c => c == x

/-- A piece of the format: a fixed character, or a field with its forms, each
a sequence of character tests, tried in order. -/
inductive Piece where
  | literal (test : CharTest)
  | field (forms : List (List CharTest))

/-- The pieces of the format. -/
def pieces : List Piece :=
  [.field [[digit, digit, digit, digit]],
   .literal (just '-'),
   .field [[just '1', within '0' '2'], [just '0', within '1' '9'], [within '1' '9']],
   .literal (just '-'),
   .field [[just '3', within '0' '1'], [within '1' '2', digit], [just '0', within '1' '9'],
     [within '1' '9'], [just ' ', within '1' '9']],
   .literal (fun c => c == 'T' || c == 't'),
   .field [[just '2', within '0' '3'], [within '0' '1', digit], [digit]],
   .literal (just ':'),
   .field [[within '0' '5', digit], [digit]],
   .literal (just ':'),
   .field [[just '6', within '0' '1'], [within '0' '5', digit], [digit]]]

/-- The characters a form takes from the front, if it matches there. -/
def takeForm : List CharTest → List Char → Option (List Char × List Char)
  | [], cs => some ([], cs)
  | _ :: _, [] => none
  | t :: ts, c :: cs =>
    if t c then (takeForm ts cs).map fun (taken, rest) => (c :: taken, rest) else none

/-- Match pieces from the front of the characters: the text of each field and
what is left, for the first way that matches. -/
def matchPieces : List Piece → List Char → Option (List (List Char) × List Char)
  | [], cs => some ([], cs)
  | .literal t :: more, c :: cs => if t c then matchPieces more cs else none
  | .literal _ :: _, [] => none
  | .field forms :: more, cs =>
    forms.findSome? fun form =>
      match takeForm form cs with
      | some (taken, rest) => (matchPieces more rest).map fun (texts, left) => (taken :: texts, left)
      | none => none

/-- The number a field's text denotes: its digits, a leading blank aside. -/
def fieldValue (cs : List Char) : Nat :=
  (cs.filterMap Text.decimalValue).foldl (fun n d => n * 10 + d) 0

/-- The year, month, day, hour, minute and second of a reading. -/
def fields (reading : String) : Except Fault (List Nat) := do
  match matchPieces pieces reading.toList with
  | none =>
    throw (.badStamp ("time data " ++ Text.quote reading ++ " does not match format " ++ Text.quote format))
  | some (texts, left) =>
    if !left.isEmpty then throw (.badStamp ("unconverted data remains: " ++ String.ofList left))
    let vs := texts.map fieldValue
    match vs with
    | [y, m, d, _, _, s] =>
      Yaml.StampText.checkDate y m d
      if s > 59 then throw (.badStamp "second must be in 0..59")
      pure vs
    | _ => pure vs

/-- A number in two digits. -/
def twoDigits (n : Nat) : String := if n < 10 then "0" ++ toString n else toString n

/-- The stamp of a reading: `YYYYMMDDTHHMMSS`. -/
def stamp (reading : String) : Except Fault String := do
  match ← fields reading with
  | [y, m, d, h, mi, s] =>
    pure (toString y ++ twoDigits m ++ twoDigits d ++ "T" ++ twoDigits h ++ twoDigits mi ++ twoDigits s)
  | _ => pure ""

theorem stamp_reading : stamp "2024-01-01T12:00:01" = .ok "20240101T120001" := by
  rfl

theorem stamp_short : stamp "2024-1-5T1:2:3" = .ok "20240105T010203" := by
  rfl

end Clock
end Firewall
