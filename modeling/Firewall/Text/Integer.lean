import Firewall.Text.Lines

/-!
# Integers in text

A text denotes an integer in a base when, blanks around it aside, it is an
optional sign, the base's prefix where it has one (`0x`, `0o`, `0b`, which
one underscore may follow), and digits, where single underscores may stand
between two digits.  Digits are the decimal digits of any script (Unicode
14, category Nd: each block of ten starts at one of `digitZeros`) and, for
bases above ten, ASCII letters.

Blanks around a number are the ASCII blanks (space, tab, the line breaks
line feed to carriage return) and the white space beyond ASCII; the
information separators `0x1C` to `0x1F` do not count.

A decimal text of more than `digitLimit` digits is refused as too long
before the rest of it is looked at; texts in the bases that are powers of
two have no limit.
-/

namespace Firewall
namespace Text

/-- The code points of the digit zero of each block of decimal digits. -/
def digitZeros : List Nat :=
  [0x30, 0x660, 0x6F0, 0x7C0, 0x966, 0x9E6, 0xA66, 0xAE6, 0xB66, 0xBE6, 0xC66, 0xCE6,
   0xD66, 0xDE6, 0xE50, 0xED0, 0xF20, 0x1040, 0x1090, 0x17E0, 0x1810, 0x1946, 0x19D0,
   0x1A80, 0x1A90, 0x1B50, 0x1BB0, 0x1C40, 0x1C50, 0xA620, 0xA8D0, 0xA900, 0xA9D0, 0xA9F0,
   0xAA50, 0xABF0, 0xFF10, 0x104A0, 0x10D30, 0x11066, 0x110F0, 0x11136, 0x111D0, 0x112F0,
   0x11450, 0x114D0, 0x11650, 0x116C0, 0x11730, 0x118E0, 0x11950, 0x11C50, 0x11D50,
   0x11DA0, 0x16A60, 0x16AC0, 0x16B50, 0x1D7CE, 0x1D7D8, 0x1D7E2, 0x1D7EC,
   0x1D7F6, 0x1E140, 0x1E2F0, 0x1E950, 0x1FBF0]

/-- The value of a decimal digit of any script. -/
def decimalValue (c : Char) : Option Nat :=
  let n := c.toNat
  (digitZeros.find? fun z => z ≤ n && n < z + 10).map (n - ·)

/-- Whether a character is a blank around a number: an ASCII blank, or white
space beyond ASCII. -/
def isNumberBlank (c : Char) : Bool :=
  if c.toNat < 127 then c == ' ' || ('\t' ≤ c && c ≤ '\r') else isSpace c

/-- A text with the blanks around a number taken off. -/
def stripNumber (cs : List Char) : List Char :=
  ((cs.dropWhile isNumberBlank).reverse.dropWhile isNumberBlank).reverse

/-- The most digits a decimal integer text may have. -/
def digitLimit : Nat := 4300

/-- Why a text is no integer. -/
inductive IntProblem where
  /-- the text does not have the form of an integer -/
  | malformed
  /-- the text has more digits than `digitLimit` -/
  | tooLong (digits : Nat)
deriving Repr, DecidableEq

/-- The value of a digit in a base up to 36: a decimal digit of any script,
or an ASCII letter for ten and more. -/
def digitIn (base : Nat) (c : Char) : Option Nat :=
  let v := match decimalValue c with
    | some d => some d
    | none =>
      if 'a' ≤ c && c ≤ 'z' then some (c.toNat - 'a'.toNat + 10)
      else if 'A' ≤ c && c ≤ 'Z' then some (c.toNat - 'A'.toNat + 10)
      else none
  v.bind fun d => if d < base then some d else none

/-- The run of digits and underscores at the front of a text: its digits,
whether its underscores stand only between digits, and what follows it. -/
def digitRunIn (base : Nat) : List Char → List Nat × Bool × List Char
  | [] => ([], true, [])
  | c :: rest =>
    match digitIn base c with
    | some d =>
      let (ds, ok, r) := digitRunIn base rest
      (d :: ds, ok, r)
    | none =>
      if c == '_' then
        match rest with
        | c2 :: _ =>
          match digitIn base c2 with
          | some _ =>
            let (ds, ok, r) := digitRunIn base rest
            (ds, ok, r)
          | none => ([], false, c :: rest)
        | [] => ([], false, [c])
      else ([], true, c :: rest)

/-- The prefix that may mark a literal of the base: `0x`, `0o` or `0b`, in
either case, for bases 16, 8 and 2; one underscore may follow it. -/
def basePrefix (base : Nat) : List Char → Option (List Char)
  | '0' :: c :: rest =>
    let l := c.toLower
    if (base == 16 && l == 'x') || (base == 8 && l == 'o') || (base == 2 && l == 'b') then
      some (match rest with
        | '_' :: more => more
        | _ => rest)
    else none
  | _ => none

/-- Whether a base is a power of two, whose texts have no length limit. -/
def binaryBase (base : Nat) : Bool := base &&& (base - 1) == 0

/-- The integer a text denotes in a base. -/
def integerIn (base : Nat) (s : String) : Except IntProblem Int := do
  let cs := s.toList.dropWhile isNumberBlank
  let (negative, body) := match cs with
    | '-' :: rest => (true, rest)
    | '+' :: rest => (false, rest)
    | _ => (false, cs)
  let body := (basePrefix base body).getD body
  if body.head? == some '_' then throw .malformed
  let (ds, ok, rest) := digitRunIn base body
  if !ok then throw .malformed
  if !binaryBase base && ds.length > digitLimit then throw (.tooLong ds.length)
  if ds.isEmpty || !(rest.all isNumberBlank) then throw .malformed
  let n : Int := ds.foldl (fun (acc : Int) (d : Nat) => acc * (base : Int) + (d : Int)) 0
  pure (if negative then -n else n)

/-- The integer a text denotes in a base, if it denotes one. -/
def integerIn? (base : Nat) (s : String) : Option Int := (integerIn base s).toOption

/-- The integer a decimal text denotes, if it denotes one. -/
def integer? (s : String) : Option Int := integerIn? 10 s

@[simp] theorem decimalValue_zero : decimalValue '0' = some 0 := by decide

theorem binaryBase_ten : binaryBase 10 = false := by decide

end Text
end Firewall
