import Firewall.Value.Basic
import Firewall.Decimal.Layout
import Firewall.Text.Quoted
import Firewall.Fault
import Firewall.Text.Integer

/-!
# Writing JSON documents

`Json.render` writes a value as a JSON document.  Mappings of either kind
are objects that keep their member order, lists and tuples are arrays.
Doubles take their shortest digits (`NaN`, `Infinity` and `-Infinity` for
the others), integers their decimal digits, of which there may be at most
`Text.digitLimit`.  Timestamps, sets, byte strings, complex numbers and named
objects have no JSON form.

Member names are texts as they are, and the other scalars as their JSON
text: doubles, integers, `true`, `false` and `null`; keys of any other kind
have no JSON form.  A member's name is checked before its value is written.
A container met again inside itself cannot be written.

A `Style` fixes the layout: on one line (members separated by `, `, names by
`: `), or one member per line indented by a number of blanks per level
(members separated by `,` at the line end).  Empty arrays and objects are
`[]` and `{}` in both.  Texts escape the quote, the backslash and the control
characters; the ASCII style also escapes every character outside blank to
tilde as `\uXXXX`, characters beyond the first plane as two such escapes.
-/

namespace Firewall
namespace Json

/-- The layout of a JSON document. -/
structure Style where
  indent : Option Nat
  asciiOnly : Bool

/-- One line, ASCII only. -/
def Style.line : Style := ⟨none, true⟩

/-- Four blanks per level, ASCII only: the configuration listing. -/
def Style.listing : Style := ⟨some 4, true⟩

/-- The `\uXXXX` escape of a code unit. -/
def unitEscape (n : Nat) : String := "\\u" ++ Text.hexPadded 4 n

/-- The escape of one code point of a text. -/
def escapeCode (asciiOnly : Bool) (n : Nat) : String :=
  if n == 0x22 then "\\\""
  else if n == 0x5C then "\\\\"
  else if n == 0xA then "\\n"
  else if n == 0xD then "\\r"
  else if n == 0x9 then "\\t"
  else if n == 8 then "\\b"
  else if n == 12 then "\\f"
  else if n < 0x20 then unitEscape n
  else if asciiOnly && n > 0x7E then
    if n < 0x10000 then unitEscape n
    else
      let m := n - 0x10000
      unitEscape (0xD800 + m / 0x400) ++ unitEscape (0xDC00 + m % 0x400)
  else Text.ofCodePoint n

/-- A text as a JSON string. -/
def textLiteral (asciiOnly : Bool) (s : String) : String :=
  "\"" ++ String.join ((Text.codePoints s).map (escapeCode asciiOnly)) ++ "\""

/-- The line break and indentation before a member at `level`, or nothing on one line. -/
def Style.lead (st : Style) (level : Nat) : String :=
  match st.indent with
  | none => ""
  | some w => "\n" ++ String.ofList (List.replicate (w * level) ' ')

/-- The separator between two members. -/
def Style.comma (st : Style) : String :=
  match st.indent with
  | none => ", "
  | some _ => ","

/-- An integer in decimal, which may have at most `Text.digitLimit` digits. -/
def intText (n : Int) : Except Fault String :=
  let t := toString n.natAbs
  if t.length > Text.digitLimit then .error .intTooLong
  else .ok (if n < 0 then "-" ++ t else t)

/-- The member name of a key. -/
def keyText (asciiOnly : Bool) (k : Value) : Except Fault String :=
  match k with
  | .str s => .ok (textLiteral asciiOnly s)
  | .float bits => .ok ("\"" ++ Decimal.Layout.json.bitsText bits ++ "\"")
  | .bool true => .ok "\"true\""
  | .bool false => .ok "\"false\""
  | .null => .ok "\"null\""
  | .int n => do pure ("\"" ++ (← intText n) ++ "\"")
  | v => .error (.badJsonKey v.className)

mutual
/-- Write a value whose first line is at indentation `level`, inside the
containers `active`, which are being written: meeting one of them again fails. -/
def renderAt (st : Style) (level : Nat) (active : List Nat) : Value → Except Fault String
  | .null => .ok "null"
  | .bool true => .ok "true"
  | .bool false => .ok "false"
  | .int n => intText n
  | .float bits => .ok (Decimal.Layout.json.bitsText bits)
  | .str s => .ok (textLiteral st.asciiOnly s)
  | .list xs | .tuple xs =>
    match xs with
    | [] => .ok "[]"
    | x :: rest => do
      let body ← renderItems st (level + 1) active (x :: rest)
      pure ("[" ++ body ++ st.lead level ++ "]")
  | .object kvs | .dict kvs =>
    match kvs with
    | [] => .ok "\x7b\x7d"
    | e :: rest => do
      let body ← renderMembers st (level + 1) active (e :: rest)
      pure ("\x7b" ++ body ++ st.lead level ++ "\x7d")
  | .cyclic id body =>
    if active.contains id then .error .circular else renderAt st level (id :: active) body
  | .again _ => .error .circular
  | v => .error (.notSerializable v.className)

/-- Write array members at `level`, each after its line break. -/
def renderItems (st : Style) (level : Nat) (active : List Nat) : List Value → Except Fault String
  | [] => .ok ""
  | [x] => do pure (st.lead level ++ (← renderAt st level active x))
  | x :: y :: rest => do
    let a ← renderAt st level active x
    let b ← renderItems st level active (y :: rest)
    pure (st.lead level ++ a ++ st.comma ++ b)

/-- Write object members at `level`, each after its line break. -/
def renderMembers (st : Style) (level : Nat) (active : List Nat) : List (Value × Value) → Except Fault String
  | [] => .ok ""
  | [(k, v)] => do
    let name ← keyText st.asciiOnly k
    pure (st.lead level ++ name ++ ": " ++ (← renderAt st level active v))
  | (k, v) :: e :: rest => do
    let name ← keyText st.asciiOnly k
    let a ← renderAt st level active v
    let b ← renderMembers st level active (e :: rest)
    pure (st.lead level ++ name ++ ": " ++ a ++ st.comma ++ b)
end

/-- Write a value as a JSON document. -/
def render (st : Style) (v : Value) : Except Fault String := renderAt st 0 [] v

end Json
end Firewall
