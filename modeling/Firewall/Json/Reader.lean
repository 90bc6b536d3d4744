import Firewall.Value.Basic
import Firewall.Fault
import Firewall.Text.Integer

/-!
# Reading JSON documents

`Json.parse` reads a JSON document into a `Value`, keeping the order of each
object's members (a repeated member keeps its first position and takes its
last value).  Besides standard JSON it accepts `NaN`, `Infinity` and
`-Infinity`.  Whitespace is blank, tab, line feed and carriage return.

A number with a fraction or an exponent is a double, correctly rounded; any
other number is an integer of at most `Text.digitLimit` digits.  A text may
not start with a mark of byte order.  Failures name the position, counted in
code points (`Text.width`), at which reading stopped:

- `Expecting value`: no value starts there;
- `Expecting property name enclosed in double quotes`, `Expecting ':' delimiter`,
  `Expecting ',' delimiter`: inside objects and arrays;
- `Unterminated string starting at`, `Invalid control character at`,
  `Invalid \escape`, `Invalid \uXXXX escape`: inside texts;
- `Extra data`: text after the document.
-/

namespace Firewall
namespace Json

/-- A reading position: the characters left and the number of code points
before them in the document. -/
structure Cursor where
  rest : List Char
  pos : Nat

/-- A failure of reading: a problem at a character position, nesting deeper
than allowed, or an integer with more digits than allowed. -/
inductive Stop where
  | problem (what : String) (pos : Nat)
  | tooDeep
  | longInteger (digits : Nat)

/-- The JSON whitespace characters. -/
def isBlank (c : Char) : Bool := c == ' ' || c == '\t' || c == '\n' || c == '\r'

/-- Skip whitespace. -/
def Cursor.skipBlank (c : Cursor) : Cursor :=
  let n := (c.rest.takeWhile isBlank).length
  ⟨c.rest.drop n, c.pos + n⟩

/-- Advance by `n` characters. -/
def Cursor.advance (c : Cursor) (n : Nat) : Cursor := ⟨c.rest.drop n, c.pos + n⟩

/-- The value of a hexadecimal digit. -/
def hexValue (c : Char) : Option Nat :=
  if '0' ≤ c ∧ c ≤ '9' then some (c.toNat - '0'.toNat)
  else if 'a' ≤ c ∧ c ≤ 'f' then some (c.toNat - 'a'.toNat + 10)
  else if 'A' ≤ c ∧ c ≤ 'F' then some (c.toNat - 'A'.toNat + 10)
  else none

/-- Four hexadecimal digits as a number. -/
def hex4 : List Char → Option Nat
  | [a, b, c, d] => do
    let a ← hexValue a; let b ← hexValue b; let c ← hexValue c; let d ← hexValue d
    pure (((a * 16 + b) * 16 + c) * 16 + d)
  | _ => none

/-- The characters of a code point, lone surrogates included, reversed to
go in front of characters kept in reverse. -/
def codeChars (n : Nat) : List Char := (Text.unitChars n).reverse

/-- The character of a one-letter escape. -/
def simpleEscape : Char → Option Char
  | '"' => some '"'
  | '\\' => some '\\'
  | '/' => some '/'
  | 'b' => some (Char.ofNat 8)
  | 'f' => some (Char.ofNat 12)
  | 'n' => some '\n'
  | 'r' => some '\r'
  | 't' => some '\t'
  | _ => none

/-- Read the rest of a text whose opening quote stood at `begin`; `acc` holds
the characters read so far, reversed.  Every step reads at least one
character, so `fuel` at the length of the rest never runs out first. -/
def readText (fuel begin : Nat) (cur : Cursor) (acc : List Char) : Except Stop (String × Cursor) :=
  match fuel with
  | 0 => .error (.problem "Unterminated string starting at" begin)
  | fuel + 1 =>
  match cur.rest with
  | [] => .error (.problem "Unterminated string starting at" begin)
  | '"' :: rest => .ok (String.ofList acc.reverse, ⟨rest, cur.pos + 1⟩)
  | '\\' :: rest =>
    match rest with
    | [] => .error (.problem "Unterminated string starting at" begin)
    | 'u' :: more =>
      let digits := more.take 4
      if more.length < 5 then .error (.problem "Invalid \\uXXXX escape" (cur.pos + 1)) else
      match hex4 digits with
      | none => .error (.problem "Invalid \\uXXXX escape" (cur.pos + 1))
      | some hi =>
        let after := more.drop 4
        -- a high surrogate followed by an escaped low surrogate joins with it
        let joined : Option Nat :=
          if 0xD800 ≤ hi ∧ hi ≤ 0xDBFF then
            match after with
            | '\\' :: 'u' :: tail =>
              if tail.length < 5 then none else
              match hex4 (tail.take 4) with
              | some lo => if 0xDC00 ≤ lo ∧ lo ≤ 0xDFFF then some lo else none
              | none => none
            | _ => none
          else none
        match joined with
        | some lo =>
          readText fuel begin ⟨after.drop 6, cur.pos + 12⟩
            (codeChars (0x10000 + (hi - 0xD800) * 0x400 + (lo - 0xDC00)) ++ acc)
        | none => readText fuel begin ⟨after, cur.pos + 6⟩ (codeChars hi ++ acc)
    | e :: more =>
      match simpleEscape e with
      | none => .error (.problem "Invalid \\escape" cur.pos)
      | some c => readText fuel begin ⟨more, cur.pos + 2⟩ (c :: acc)
  | c :: rest =>
    if c.toNat ≤ 0x1F then .error (.problem "Invalid control character at" cur.pos)
    else readText fuel begin ⟨rest, cur.pos + Text.width c⟩ (c :: acc)

/-- ASCII digits at the front of a list. -/
def digitsOf (cs : List Char) : List Char := cs.takeWhile Char.isDigit

/-- The number of a list of ASCII digits. -/
def digitsValue (ds : List Char) : Nat :=
  ds.foldl (fun n c => n * 10 + (c.toNat - '0'.toNat)) 0

/-- The double nearest to `m * 10^e`, negated when `negative`. -/
def decimalFloat (negative : Bool) (m : Nat) (e : Int) : Float :=
  let size : Int := (toString m).length
  let x : Float :=
    if m == 0 then 0.0
    else if e + size > 311 then Float.ofScientific 1 false 400
    else if e + size < -344 then 0.0
    else if e ≥ 0 then Float.ofScientific m false e.toNat
    else Float.ofScientific m true (-e).toNat
  if negative then -x else x

/-- Read a number at the cursor: an optional minus, an integer part without
leading zeros, an optional fraction, an optional exponent (taken only when it
has digits).  An integer may have at most `Text.digitLimit` digits. -/
def readNumber (cur : Cursor) : Except Stop (Value × Cursor) :=
  let (negative, afterSign) := match cur.rest with
    | '-' :: r => (true, r)
    | r => (false, r)
  let signLen := if negative then 1 else 0
  let intDigits : List Char := match afterSign with
    | '0' :: _ => ['0']
    | c :: r => if '1' ≤ c ∧ c ≤ '9' then c :: digitsOf r else []
    | [] => []
  if intDigits.isEmpty then .error (.problem "Expecting value" cur.pos) else
  let afterInt := afterSign.drop intDigits.length
  let fracDigits : List Char := match afterInt with
    | '.' :: d :: r => if d.isDigit then d :: digitsOf r else []
    | _ => []
  let fracLen := if fracDigits.isEmpty then 0 else fracDigits.length + 1
  let afterFrac := afterInt.drop fracLen
  let (expValue, expLen) : Int × Nat := match afterFrac with
    | e :: r =>
      if e == 'e' || e == 'E' then
        let (sign, r', sLen) := match r with
          | '-' :: t => (-1, t, 1)
          | '+' :: t => (1, t, 1)
          | t => (1, t, 0)
        let ds := digitsOf r'
        if ds.isEmpty then (0, 0) else (sign * (digitsValue ds : Int), 1 + sLen + ds.length)
      else (0, 0)
    | [] => (0, 0)
  let total := signLen + intDigits.length + fracLen + expLen
  let next := cur.advance total
  if fracLen == 0 && expLen == 0 then
    if intDigits.length > Text.digitLimit then .error (.longInteger intDigits.length) else
    let n : Int := digitsValue intDigits
    .ok (.int (if negative then -n else n), next)
  else
    let mantissa := digitsValue (intDigits ++ fracDigits)
    .ok (.ofFloat (decimalFloat negative mantissa (expValue - fracDigits.length)), next)

/-- Whether the characters start with a word. -/
def startsWith (cs : List Char) (w : String) : Bool :=
  cs.take w.length == w.toList

mutual
/-- Read one value at the cursor.  `depth` bounds the nesting of arrays and
objects; `fuel` bounds the number of steps and is never the binding limit when
it exceeds the length of the rest of the document, since every step reads at
least one character. -/
def readValue (fuel depth : Nat) (cur : Cursor) : Except Stop (Value × Cursor) :=
  match fuel with
  | 0 => .error .tooDeep
  | fuel + 1 =>
    match cur.rest with
    | '"' :: rest => do
      let (s, next) ← readText rest.length cur.pos ⟨rest, cur.pos + 1⟩ []
      pure (.str s, next)
    | '{' :: rest =>
      match depth with
      | 0 => .error .tooDeep
      | d + 1 => readObject fuel d (Cursor.skipBlank ⟨rest, cur.pos + 1⟩) true []
    | '[' :: rest =>
      match depth with
      | 0 => .error .tooDeep
      | d + 1 => readArray fuel d (Cursor.skipBlank ⟨rest, cur.pos + 1⟩) true []
    | cs =>
      if startsWith cs "null" then .ok (.null, cur.advance 4)
      else if startsWith cs "true" then .ok (.bool true, cur.advance 4)
      else if startsWith cs "false" then .ok (.bool false, cur.advance 5)
      else if startsWith cs "NaN" then .ok (.ofFloat (0.0 / 0.0), cur.advance 3)
      else if startsWith cs "Infinity" then .ok (.ofFloat (1.0 / 0.0), cur.advance 8)
      else if startsWith cs "-Infinity" then .ok (.ofFloat (-1.0 / 0.0), cur.advance 9)
      else readNumber cur

/-- Read the members of an array after its opening bracket, or after a comma,
and the blanks that follow; `first` tells which.  `acc` holds the members read
so far, reversed. -/
def readArray (fuel depth : Nat) (cur : Cursor) (first : Bool) (acc : List Value) :
    Except Stop (Value × Cursor) :=
  match fuel with
  | 0 => .error .tooDeep
  | fuel + 1 =>
    match cur.rest with
    | ']' :: rest =>
      if first then .ok (.list [], ⟨rest, cur.pos + 1⟩)
      else .error (.problem "Expecting value" cur.pos)
    | _ => do
      let (v, next) ← readValue fuel depth cur
      let next := next.skipBlank
      match next.rest with
      | ']' :: rest => .ok (.list (v :: acc).reverse, ⟨rest, next.pos + 1⟩)
      | ',' :: rest => readArray fuel depth (Cursor.skipBlank ⟨rest, next.pos + 1⟩) false (v :: acc)
      | _ => .error (.problem "Expecting ',' delimiter" next.pos)

/-- Read the members of an object after its opening brace, or after a comma,
and the blanks that follow; `first` tells which.  `acc` holds the members read
so far, reversed. -/
def readObject (fuel depth : Nat) (cur : Cursor) (first : Bool) (acc : List (Value × Value)) :
    Except Stop (Value × Cursor) :=
  match fuel with
  | 0 => .error .tooDeep
  | fuel + 1 =>
    match cur.rest with
    | '}' :: rest =>
      if first then .ok (.object [], ⟨rest, cur.pos + 1⟩)
      else .error (.problem "Expecting property name enclosed in double quotes" cur.pos)
    | '"' :: rest => do
      let (k, afterKey) ← readText rest.length cur.pos ⟨rest, cur.pos + 1⟩ []
      let afterKey := afterKey.skipBlank
      match afterKey.rest with
      | ':' :: more => do
        let (v, next) ← readValue fuel depth (Cursor.skipBlank ⟨more, afterKey.pos + 1⟩)
        let next := next.skipBlank
        match next.rest with
        | '}' :: rest => .ok (.object (Value.entriesOfPairs ((.str k, v) :: acc).reverse), ⟨rest, next.pos + 1⟩)
        | ',' :: rest => readObject fuel depth (Cursor.skipBlank ⟨rest, next.pos + 1⟩) false ((.str k, v) :: acc)
        | _ => .error (.problem "Expecting ',' delimiter" next.pos)
      | _ => .error (.problem "Expecting ':' delimiter" afterKey.pos)
    | _ => .error (.problem "Expecting property name enclosed in double quotes" cur.pos)
end

/-- The mark of byte order that a JSON text may not start with. -/
def byteOrderMark : Char := Char.ofNat 0xFEFF

/-- Read a whole JSON document, with blanks around it, nesting at most `depth` deep. -/
def parseWithDepth (depth : Nat) (text : String) : Except Fault Value :=
  let cs := text.toList
  if cs.head? == some byteOrderMark then
    .error (.jsonDecode "Unexpected UTF-8 BOM (decode using utf-8-sig)" text 0)
  else
  let start := Cursor.skipBlank ⟨cs, 0⟩
  match readValue (cs.length + 2) depth start with
  | .error .tooDeep => .error .recursion
  | .error (.longInteger n) => .error (.intDigits n)
  | .error (.problem what pos) => .error (.jsonDecode what text pos)
  | .ok (v, next) =>
    let next := next.skipBlank
    if next.rest.isEmpty then .ok v else .error (.jsonDecode "Extra data" text next.pos)

/-- Read a whole JSON document, as configurations are read. -/
def parse (text : String) : Except Fault Value := parseWithDepth 990 text

end Json
end Firewall
