import Firewall.Json.Reader
import Firewall.Text.Integer

/-!
# Reading decimal numbers

A text denotes a double when, the blanks around a number aside, it is an optional
sign followed by `inf`, `infinity` or `nan` in any case, or by a decimal:
digits with an optional point and fraction (at least one digit in all), then
optionally `e` or `E`, a sign and digits.  Single underscores may stand
between digits; digits are those of any script.  The value is the double
nearest to the decimal.
-/

namespace Firewall
namespace Decimal

/-- The double infinity. -/
def infinity : Float := Float.ofScientific 1 false 400

/-- A double that is not a number. -/
def notANumber : Float := 0.0 / 0.0

/-- The digits at the front of a text, with single underscores between
them, and what follows. -/
def digitRun : List Char → List Nat × List Char
  | c :: '_' :: tl@(c2 :: _) =>
    match Text.decimalValue c, Text.decimalValue c2 with
    | some d, some _ =>
      let (ds, r) := digitRun tl
      (d :: ds, r)
    | some d, none => ([d], '_' :: tl)
    | none, _ => ([], c :: '_' :: tl)
  | c :: rest =>
    match Text.decimalValue c with
    | some d =>
      let (ds, r) := digitRun rest
      (d :: ds, r)
    | none => ([], c :: rest)
  | [] => ([], [])

/-- The value of decimal digits. -/
def digitsValue (ds : List Nat) : Nat := ds.foldl (fun acc d => acc * 10 + d) 0

/-- The signed exponent after `e` or `E`, and what follows. -/
def exponent : List Char → Option (Int × List Char)
  | e :: rest =>
    if e == 'e' || e == 'E' then
      let (negative, body) := match rest with
        | '-' :: r => (true, r)
        | '+' :: r => (false, r)
        | r => (false, r)
      let (ds, r) := digitRun body
      if ds.isEmpty then none
      else
        let n : Int := digitsValue ds
        some (if negative then -n else n, r)
    else some (0, e :: rest)
  | [] => some (0, [])

/-- The double a text denotes, if it denotes one. -/
def read? (s : String) : Option Float :=
  let cs := Text.stripNumber s.toList
  let (negative, body) := match cs with
    | '-' :: rest => (true, rest)
    | '+' :: rest => (false, rest)
    | _ => (false, cs)
  let word := String.ofList (body.map Char.toLower)
  if word == "inf" || word == "infinity" then some (if negative then -infinity else infinity)
  else if word == "nan" then some notANumber
  else
    let (whole, afterWhole) := digitRun body
    let (fraction, afterFraction) := match afterWhole with
      | '.' :: r => digitRun r
      | r => ([], r)
    if whole.isEmpty && fraction.isEmpty then none
    else
      match exponent afterFraction with
      | some (e, []) =>
        some (Json.decimalFloat negative (digitsValue (whole ++ fraction)) (e - fraction.length))
      | _ => none

@[simp] theorem digitRun_nil : digitRun [] = ([], []) := by simp [digitRun]

end Decimal
end Firewall
