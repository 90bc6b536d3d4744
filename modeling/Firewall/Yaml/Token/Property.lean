import Firewall.Yaml.Token.Scalar

/-!
# Node properties and directives

Anchors `&name` and aliases `*name` use ASCII letters, digits, `-` and `_`.
A tag is `!<uri>`, a lone `!`, or a handle (`!`, `!!` or `!name!`) and a
suffix; a URI may hold `%` escapes of UTF-8 bytes.  A directive starts a line
with `%`: `%YAML major.minor`, `%TAG handle prefix`, or any other name, whose
line is skipped.
-/

namespace Firewall
namespace Yaml
namespace Lex

/-- Whether a character may be part of an anchor, alias, handle or directive
name. -/
def isNameChar (c : Char) : Bool := c.isAlphanum || c == '-' || c == '_'

/-- Whether a character may be part of a tag URI. -/
def isUriChar (c : Char) : Bool :=
  c.isAlphanum || "-;/?:@&=+$,_.!~*()[]%".contains c || c == Text.apostrophe

/-! ## Anchors and aliases -/

/-- Read an anchor or an alias. -/
def anchorToken (isAlias : Bool) : LexM Token := do
  let start ← here
  let context := if isAlias then "while scanning an alias" else "while scanning an anchor"
  forward 1
  let name ← take isNameChar
  if name.isEmpty then
    failWhile context start ("expected alphabetic or numeric character, but found " ++ shown (← current))
  let c ← current
  if !(isBlankOrEnd c || "?:,]\x7d%@".contains c || c == Char.ofNat 96) then
    failWhile context start ("expected alphabetic or numeric character, but found " ++ shown c)
  return ⟨if isAlias then .alias name else .anchor name, start, ← here⟩

/-! ## UTF-8 in URI escapes -/

/-- How a byte sequence fails to be UTF-8: at which byte, over how many, and why. -/
structure Utf8Error where
  position : Nat
  length : Nat
  reason : String
deriving Repr, DecidableEq

/-- The text of a UTF-8 failure. -/
def Utf8Error.text (bytes : Array Nat) (e : Utf8Error) : String :=
  let place := if e.length ≤ 1 then
      "byte 0x" ++ Text.hexPadded 2 (bytes.getD e.position 0) ++ " in position " ++ toString e.position
    else "bytes in position " ++ toString e.position ++ "-" ++ toString (e.position + e.length - 1)
  "'utf-8' codec can't decode " ++ place ++ ": " ++ e.reason

/-- The number of continuation bytes after a first byte, and the range the
second byte must lie in. -/
def utf8Lead (b : Nat) : Option (Nat × Nat × Nat) :=
  if 0xC2 ≤ b && b ≤ 0xDF then some (1, 0x80, 0xBF)
  else if b == 0xE0 then some (2, 0xA0, 0xBF)
  else if 0xE1 ≤ b && b ≤ 0xEC then some (2, 0x80, 0xBF)
  else if b == 0xED then some (2, 0x80, 0x9F)
  else if 0xEE ≤ b && b ≤ 0xEF then some (2, 0x80, 0xBF)
  else if b == 0xF0 then some (3, 0x90, 0xBF)
  else if 0xF1 ≤ b && b ≤ 0xF3 then some (3, 0x80, 0xBF)
  else if b == 0xF4 then some (3, 0x80, 0x8F)
  else none

/-- How many continuation bytes follow, each in range (the first in `lo..hi`). -/
def utf8Tail (lo hi : Nat) : Nat → List Nat → Nat
  | 0, _ => 0
  | _, [] => 0
  | n + 1, b :: rest => if lo ≤ b && b ≤ hi then 1 + utf8Tail 0x80 0xBF n rest else 0

/-- Decode UTF-8 bytes, from position `pos`, onto the characters so far,
each code point written as in `Text.ofCodePoint`. -/
def utf8Decode (pos : Nat) (acc : List Char) (bytes : List Nat) : Except Utf8Error String :=
  match bytes with
  | [] => .ok (String.ofList acc.reverse)
  | b :: rest =>
    if b < 0x80 then utf8Decode (pos + 1) (Char.ofNat b :: acc) rest
    else match utf8Lead b with
      | none => .error ⟨pos, 1, "invalid start byte"⟩
      | some (n, lo, hi) =>
        let good := utf8Tail lo hi n rest
        if good == n then
          let tail := rest.take n
          let bits := if n == 1 then b % 0x20 else if n == 2 then b % 0x10 else b % 0x08
          let code := tail.foldl (fun acc c => acc * 64 + c % 0x40) bits
          utf8Decode (pos + 1 + n) ((Text.unitChars code).reverse ++ acc) (rest.drop n)
        else if good == rest.length then .error ⟨pos, 1 + good, "unexpected end of data"⟩
        else .error ⟨pos, 1 + good, "invalid continuation byte"⟩
termination_by bytes.length
decreasing_by
  all_goals simp only [List.length_cons, List.length_drop]
  all_goals omega

/-! ## Tags -/

/-- Read the `%` escapes of a tag URI as the text their bytes encode. -/
def uriEscapes (name : String) (start : Place) : LexM String := do
  let mark ← here
  let rec bytes : Nat → Array Nat → LexM (Array Nat)
    | 0, acc => return acc
    | fuel + 1, acc => do
      if (← current) != '%' then return acc
      forward 1
      for k in [0, 1] do
        let c ← peek k
        if (hexDigit c).isNone then
          failWhile ("while scanning a " ++ name) start
            ("expected URI escape sequence of 2 hexadecimal numbers, but found " ++ shown c)
      let b := hexValue ((← get).cursor.rest.take 2)
      forward 2
      bytes fuel (acc.push b)
  let bs ← bytes (← budget) #[]
  match utf8Decode 0 [] bs.toList with
  | .ok s => return s
  | .error e => throw (.marked ⟨.scanner, some ("while scanning a " ++ name), some start, e.text bs, mark⟩)

/-- Read the characters of a tag URI, with their escapes. -/
def uriParts (name : String) (start : Place) : Nat → List String → LexM (List String)
  | 0, acc => return acc
  | fuel + 1, acc => do
    let piece ← take (fun c => isUriChar c && c != '%')
    let acc := if piece.isEmpty then acc else acc ++ [piece]
    if (← current) == '%' then
      let s ← uriEscapes name start
      uriParts name start fuel (acc ++ [s])
    else return acc

/-- Read a tag URI, which may not be empty. -/
def uri (name : String) (start : Place) : LexM String := do
  let startsEscape := (← current) == '%'
  let parts ← uriParts name start (← budget) []
  if parts.isEmpty && !startsEscape then
    throw (.marked ⟨.scanner, some ("while parsing a " ++ name), some start,
      "expected URI, but found " ++ shown (← current), ← here⟩)
  return String.join parts

/-- Read a tag handle: `!`, `!!` or `!name!`. -/
def handle (name : String) (start : Place) : LexM String := do
  let context := "while scanning a " ++ name
  let c ← current
  if c != '!' then failWhile context start ("expected '!', but found " ++ shown c)
  if (← peek 1) == ' ' then
    forward 1
    return "!"
  let n := 1 + (((← get).cursor.rest.drop 1).takeWhile isNameChar).length
  let c ← peek n
  if c != '!' then
    forward n
    failWhile context start ("expected '!', but found " ++ shown c)
  let h ← ahead (n + 1)
  forward (n + 1)
  return h

/-- Read a tag token. -/
def tagToken : LexM Token := do
  let start ← here
  let next ← peek 1
  let (h, suffix) ← if next == '<' then do
      forward 2
      let suffix ← uri "tag" start
      let c ← current
      if c != '>' then
        throw (.marked ⟨.scanner, some "while parsing a tag", some start,
          "expected '>', but found " ++ shown c, ← here⟩)
      forward 1
      pure (none, suffix)
    else if isBlankOrEnd next then do
      forward 1
      pure (none, "!")
    else do
      let word := ((← get).cursor.rest.drop 1).takeWhile (fun c => !isSpaceOrEnd c)
      let h ← if word.contains '!' then handle "tag" start else do
        forward 1
        pure "!"
      let suffix ← uri "tag" start
      pure (some h, suffix)
  let c ← current
  if !isSpaceOrEnd c then
    failWhile "while scanning a tag" start ("expected ' ', but found " ++ shown c)
  return ⟨.tag h suffix, start, ← here⟩

/-! ## Directives -/

/-- Read the rest of a directive line: blanks and a comment. -/
def directiveEnd (start : Place) : LexM Unit := do
  skip (· == ' ')
  if (← current) == '#' then skip (fun c => !isBreakOrEnd c)
  let c ← current
  if !isBreakOrEnd c then
    failWhile "while scanning a directive" start
      ("expected a comment or a line break, but found " ++ shown c)
  let _ ← lineBreak

/-- Read a number of a YAML directive. -/
def versionNumber (start : Place) : LexM Nat := do
  let c ← current
  if !c.isDigit then failWhile "while scanning a directive" start ("expected a digit, but found " ++ shown c)
  let ds ← take Char.isDigit
  return ds.toList.foldl (fun acc d => acc * 10 + (d.toNat - '0'.toNat)) 0

/-- Read the version of a YAML directive. -/
def versionValue (start : Place) : LexM DirectiveValue := do
  skip (· == ' ')
  let major ← versionNumber start
  let c ← current
  if c != '.' then
    failWhile "while scanning a directive" start ("expected a digit or '.', but found " ++ shown c)
  forward 1
  let minor ← versionNumber start
  let c ← current
  if !isSpaceOrEnd c then
    failWhile "while scanning a directive" start ("expected a digit or ' ', but found " ++ shown c)
  return .version major minor

/-- Read the handle and prefix of a TAG directive. -/
def tagPrefixValue (start : Place) : LexM DirectiveValue := do
  skip (· == ' ')
  let h ← handle "directive" start
  let c ← current
  if c != ' ' then failWhile "while scanning a directive" start ("expected ' ', but found " ++ shown c)
  skip (· == ' ')
  let pre ← uri "directive" start
  let c ← current
  if !isSpaceOrEnd c then
    failWhile "while scanning a directive" start ("expected ' ', but found " ++ shown c)
  return .tagPrefix h pre

/-- Read a directive token. -/
def directiveToken : LexM Token := do
  let start ← here
  forward 1
  let name ← take isNameChar
  let wrong := fun (c : Char) =>
    failWhile (α := Unit) "while scanning a directive" start
      ("expected alphabetic or numeric character, but found " ++ shown c)
  if name.isEmpty then wrong (← current)
  let c ← current
  if !isSpaceOrEnd c then wrong c
  let value ← if name == "YAML" then versionValue start
    else if name == "TAG" then tagPrefixValue start
    else pure .other
  let stop ← here
  if value == .other then skip (fun c => !isBreakOrEnd c)
  directiveEnd start
  return ⟨.directive name value, start, stop⟩

@[simp] theorem utf8Decode_nil (pos : Nat) (acc : List Char) :
    utf8Decode pos acc [] = .ok (String.ofList acc.reverse) := by
  simp [utf8Decode]

end Lex
end Yaml
end Firewall
