import Firewall.Decimal.Read

/-!
# Complex numbers in text

A text denotes a complex number when, after decimal digits of any script
are read as ASCII digits and white space beyond ASCII as blanks, and after
its underscores (each between two digits, and none after a NUL character)
are dropped, it is ASCII blanks,
optionally an opening parenthesis with blanks, then one of

- a real number `x`, an imaginary number `yj`, or both `x±yj`, where the
  numbers are decimals, `inf`, `infinity` or `nan` in any case, each with an
  optional sign;
- an imaginary unit alone, `j`, `+j` or `-j`, or after a real number, `x+j`;

then blanks, the closing parenthesis when there was an opening one, and
blanks.  The imaginary unit is `j` or `J`.
-/

namespace Firewall
namespace Decimal

/-- Why a text is no complex number. -/
inductive ComplexProblem where
  /-- an underscore that does not stand between two digits -/
  | underscore
  /-- any other departure from the form -/
  | malformed
deriving Repr, DecidableEq

/-- A character as the number reader sees it: decimal digits of any script
as ASCII digits, white space beyond ASCII as a blank, other characters
beyond ASCII refused. -/
def asciiForm (c : Char) : Option Char :=
  if c.toNat < 127 then some c
  else if Text.isSpace c then some ' '
  else (Text.decimalValue c).map fun d => Char.ofNat ('0'.toNat + d)

/-- The characters as the number reader sees them, up to the first refused
one, which ends them as a character that fits no number. -/
def asciiForms : List Char → List Char
  | [] => []
  | c :: rest =>
    match asciiForm c with
    | some a => a :: asciiForms rest
    | none => ['?']

/-- The characters without their underscores, each of which must stand
between two ASCII digits. -/
def dropUnderscores (prev : Char) : List Char → Option (List Char)
  | [] => if prev == '_' then none else some []
  | c :: rest =>
    if c == '_' then
      if prev.isDigit then dropUnderscores c rest else none
    else if prev == '_' && !c.isDigit then none
    else (dropUnderscores c rest).map (c :: ·)

/-- Whether a character is an ASCII blank. -/
def asciiBlank (c : Char) : Bool := c == ' ' || ('\t' ≤ c && c ≤ '\r')

/-- Whether a word stands, in any case, at the front of the characters. -/
def wordAt (w : String) (cs : List Char) : Bool :=
  (cs.take w.length).map Char.toLower == w.toList

/-- The ASCII digits at the front of the characters, and what follows. -/
def asciiDigits (cs : List Char) : List Char × List Char := (cs.takeWhile Char.isDigit, cs.dropWhile Char.isDigit)

/-- The double at the front of the characters, if one is there, and what
follows it: an optional sign, then digits with an optional point and
fraction and an optional exponent (taken only with digits), or `inf`,
`infinity` or `nan` in any case. -/
def floatPrefix (cs : List Char) : Option (Float × List Char) :=
  let (negative, body) := match cs with
    | '-' :: rest => (true, rest)
    | '+' :: rest => (false, rest)
    | _ => (false, cs)
  let signed := fun (x : Float) => if negative then -x else x
  let (whole, afterWhole) := asciiDigits body
  let (fraction, afterFraction) := match afterWhole with
    | '.' :: r => asciiDigits r
    | r => ([], r)
  let afterPoint := match afterWhole with
    | '.' :: _ => afterFraction
    | _ => afterWhole
  if !(whole.isEmpty && fraction.isEmpty) then
    let (e, rest) : Int × List Char := match afterPoint with
      | x :: r =>
        if x == 'e' || x == 'E' then
          let (eNegative, eBody) := match r with
            | '-' :: t => (true, t)
            | '+' :: t => (false, t)
            | t => (false, t)
          let (ds, after) := asciiDigits eBody
          if ds.isEmpty then (0, afterPoint)
          else
            let n : Int := Json.digitsValue ds
            (if eNegative then -n else n, after)
        else (0, afterPoint)
      | [] => (0, [])
    some (Json.decimalFloat negative (Json.digitsValue (whole ++ fraction)) (e - fraction.length), rest)
  else if wordAt "infinity" body then some (signed infinity, body.drop 8)
  else if wordAt "inf" body then some (signed infinity, body.drop 3)
  else if wordAt "nan" body then some (notANumber, body.drop 3)
  else none

/-- Whether a character is the imaginary unit. -/
def isUnit (c : Char) : Bool := c == 'j' || c == 'J'

/-- The real and imaginary parts, and what follows them. -/
def parts (cs : List Char) : Option ((Float × Float) × List Char) :=
  match floatPrefix cs with
  | some (z, rest) =>
    match rest with
    | s :: more =>
      if s == '+' || s == '-' then
        let (y, afterY) := match floatPrefix rest with
          | some (y, r) => (y, r)
          | none => (if s == '+' then 1.0 else -1.0, more)
        match afterY with
        | u :: after => if isUnit u then some ((z, y), after) else none
        | [] => none
      else if isUnit s then some ((0.0, z), more)
      else some ((z, 0.0), rest)
    | [] => some ((z, 0.0), [])
  | none =>
    let (y, afterSign) := match cs with
      | '+' :: r => (1.0, r)
      | '-' :: r => (-1.0, r)
      | r => (1.0, r)
    match afterSign with
    | u :: after => if isUnit u then some ((0.0, y), after) else none
    | [] => none

/-- The complex number a text denotes, as the bits of its real and imaginary parts. -/
def complex? (s : String) : Except ComplexProblem (UInt64 × UInt64) := do
  let seen := asciiForms s.toList
  -- underscores count only before the first NUL, and with one there is no
  -- NUL allowed at all
  let beforeNul := seen.takeWhile (· != '\x00')
  let plain ← if beforeNul.contains '_' then
      if beforeNul.length != seen.length then throw .underscore
      match dropUnderscores ' ' seen with
      | some cs => pure cs
      | none => throw .underscore
    else pure seen
  let cs := plain.dropWhile asciiBlank
  let (bracket, cs) := match cs with
    | '(' :: rest => (true, rest.dropWhile asciiBlank)
    | _ => (false, cs)
  let ((x, y), rest) ← match parts cs with
    | some r => pure r
    | none => throw .malformed
  let rest := rest.dropWhile asciiBlank
  let rest ← if bracket then
      match rest with
      | ')' :: more => pure (more.dropWhile asciiBlank)
      | _ => throw .malformed
    else pure rest
  if !rest.isEmpty then throw .malformed
  pure (x.toBits, y.toBits)

end Decimal
end Firewall
