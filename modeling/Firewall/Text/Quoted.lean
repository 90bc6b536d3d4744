import Firewall.Text.Printable
import Firewall.Text.CodePoint

/-!
# Quoted text

The quoted form of a text, as error messages and container texts show it:
the text between single quotes, or between double quotes when it holds a
single quote and no double quote.  The backslash, the chosen quote, tab, line
feed and carriage return are escaped; other characters that do not print are
written as hexadecimal escapes of two, four or eight digits.

Main definitions:

- `Text.quote`: the quoted form.
-/

namespace Firewall
namespace Text

/-- Lower-case hexadecimal digits of `n`, padded with zeros to `width`. -/
def hexPadded (width n : Nat) : String :=
  let ds := Nat.toDigits 16 n
  String.ofList (List.replicate (width - ds.length) '0' ++ ds)

/-- The escape of one code point inside a text quoted by `q`. -/
def escapeCode (q : Char) (n : Nat) : String :=
  if n == q.toNat || n == 0x5C then String.ofList ['\\', Char.ofNat n]
  else if n == 0x9 then "\\t"
  else if n == 0xA then "\\n"
  else if n == 0xD then "\\r"
  else if printable n then ofCodePoint n
  else
    if n < 0x100 then "\\x" ++ hexPadded 2 n
    else if n < 0x10000 then "\\u" ++ hexPadded 4 n
    else "\\U" ++ hexPadded 8 n

/-- The single quote character. -/
def apostrophe : Char := Char.ofNat 39

/-- The quote character for a text: double only when the text holds a single
quote and no double quote. -/
def quoteFor (s : String) : Char :=
  if s.contains apostrophe && !s.contains '"' then '"' else apostrophe

/-- The quoted form of a text. -/
def quote (s : String) : String :=
  let q := quoteFor s
  q.toString ++ String.join ((codePoints s).map (escapeCode q)) ++ q.toString

end Text
end Firewall
