import Firewall.Yaml.Stamp

/-!
# Tags and the types of plain scalars

Every node has a tag.  A node without one, or with the non-specific tag `!`,
takes the tag of its kind: sequences `seq`, mappings `map`, quoted scalars
`str`.  A plain scalar's tag is guessed from its text by the YAML 1.1 rules,
tried in this order for the text's first character:

- `bool`: `yes`, `no`, `true`, `false`, `on`, `off`, each in lower case,
  capitalised or upper case;
- `float`: decimals with a point and an optional signed exponent, base 60
  with a point (`1:30.5`), `.inf` with an optional sign, `.nan`;
- `int`: binary `0b…`, octal `0…`, decimal, hexadecimal `0x…`, base 60
  (`1:30`), all with an optional sign and underscores;
- `merge` for `<<`, `null` for `~`, `null` in three spellings and the empty
  text, `timestamp` for a date or time (see `Yaml.Stamp`), `value` for `=`.

A text that none of these match is a `str`.  As in the patterns these rules
come from, a text may end in one line feed that the pattern does not see.
-/

namespace Firewall
namespace Yaml
namespace Tag

/-- The prefix of the tags of the YAML types. -/
def core : String := "tag:yaml.org,2002:"

/-- The tag of texts. -/
def str : String := core ++ "str"
/-- The tag of integers. -/
def int : String := core ++ "int"
/-- The tag of doubles. -/
def float : String := core ++ "float"
/-- The tag of booleans. -/
def bool : String := core ++ "bool"
/-- The tag of null. -/
def null : String := core ++ "null"
/-- The tag of timestamps. -/
def timestamp : String := core ++ "timestamp"
/-- The tag of the merge key. -/
def merge : String := core ++ "merge"
/-- The tag of the value key. -/
def value : String := core ++ "value"
/-- The tag of the indicator characters read as plain scalars. -/
def yaml : String := core ++ "yaml"
/-- The tag of sequences. -/
def seq : String := core ++ "seq"
/-- The tag of mappings. -/
def map : String := core ++ "map"
/-- The tag of ordered maps. -/
def omap : String := core ++ "omap"
/-- The tag of pair lists. -/
def pairs : String := core ++ "pairs"
/-- The tag of byte strings written in base64. -/
def binary : String := core ++ "binary"
/-- The tag of sets. -/
def set : String := core ++ "set"
/-- The prefix of the tags that name the values and objects of Python. -/
def python : String := core ++ "python/"

/-- Whether what is left ends the text: nothing, or one final line feed. -/
def ends (cs : List Char) : Bool := StampText.ends cs

/-- Whether the text, less one final line feed, is one of the words. -/
def oneOf (words : List String) (cs : List Char) : Bool :=
  words.any fun w => cs == w.toList || cs == w.toList ++ ['\n']

/-- The text after an optional sign. -/
def unsigned : List Char → List Char
  | '-' :: r | '+' :: r => r
  | cs => cs

/-- Whether a character is a digit or an underscore. -/
def digitOr (c : Char) : Bool := c.isDigit || c == '_'

/-- Whether a nonempty run of characters of the class ends the text. -/
def runEnds (p : Char → Bool) (cs : List Char) : Bool :=
  !(cs.takeWhile p).isEmpty && ends (cs.dropWhile p)

/-- Whether base-60 groups `:d` or `:dd` (the first of two digits at most 5)
follow, the last followed by what `final` accepts. -/
def sexagesimal (final : List Char → Bool) : List Char → Bool
  | ':' :: a :: tl@(b :: rest) =>
    (a.isDigit && a ≤ '5' && b.isDigit && (final rest || sexagesimal final rest)) ||
    (a.isDigit && (final tl || sexagesimal final tl))
  | [':', a] => a.isDigit && final []
  | _ => false

/-- Whether an exponent `e±digits` or nothing ends the text. -/
def exponentEnds (cs : List Char) : Bool :=
  ends cs ||
  match cs with
  | e :: s :: rest => (e == 'e' || e == 'E') && (s == '-' || s == '+') && runEnds Char.isDigit rest
  | _ => false

/-- The YAML 1.1 integers. -/
def isInt (cs : List Char) : Bool :=
  match unsigned cs with
  | '0' :: 'b' :: rest => runEnds (fun c => c == '0' || c == '1' || c == '_') rest
  | '0' :: 'x' :: rest => runEnds (fun c => c.isDigit || ('a' ≤ c && c ≤ 'f') || ('A' ≤ c && c ≤ 'F') || c == '_') rest
  | '0' :: rest => ends rest || runEnds (fun c => ('0' ≤ c && c ≤ '7') || c == '_') rest
  | c :: rest =>
    ('1' ≤ c && c ≤ '9') &&
      (ends (rest.dropWhile digitOr) || sexagesimal ends (rest.dropWhile digitOr))
  | [] => false

/-- The YAML 1.1 doubles. -/
def isFloat (cs : List Char) : Bool :=
  let body := unsigned cs
  let fixed := match body with
    | c :: rest =>
      c.isDigit &&
        (match rest.dropWhile digitOr with
         | '.' :: frac => exponentEnds (frac.dropWhile digitOr)
         | _ => false)
    | [] => false
  let pointFirst := match cs with
    | '.' :: c :: rest => c.isDigit && exponentEnds (rest.dropWhile digitOr)
    | _ => false
  let base60 := match body with
    | c :: rest =>
      c.isDigit && sexagesimal (fun r => match r with
        | '.' :: frac => ends (frac.dropWhile digitOr)
        | _ => false) (rest.dropWhile digitOr)
    | [] => false
  let infinite := oneOf [".inf", ".Inf", ".INF"] body
  let nan := oneOf [".nan", ".NaN", ".NAN"] cs
  fixed || pointFirst || base60 || infinite || nan

/-- The YAML 1.1 booleans. -/
def isBool (cs : List Char) : Bool :=
  oneOf ["yes", "Yes", "YES", "no", "No", "NO", "true", "True", "TRUE", "false", "False", "FALSE",
    "on", "On", "ON", "off", "Off", "OFF"] cs

/-- The YAML 1.1 nulls. -/
def isNull (cs : List Char) : Bool := ends cs || oneOf ["~", "null", "Null", "NULL"] cs

/-- The timestamps that need no tag. -/
def isTimestamp (cs : List Char) : Bool :=
  match StampText.read? cs with
  | some t => t.time.isSome || !t.shortDate
  | none => false

/-- The tag guessed for a plain scalar. -/
def guess (text : String) : String :=
  let cs := text.toList
  match cs with
  | [] => null
  | c :: _ =>
    let rules : List (String × (List Char → Bool)) :=
      (if "yYnNtTfFoO".contains c then [(bool, isBool)] else []) ++
      (if "-+0123456789.".contains c then [(float, isFloat)] else []) ++
      (if "-+0123456789".contains c then [(int, isInt)] else []) ++
      (if c == '<' then [(merge, oneOf ["<<"])] else []) ++
      (if "~nN".contains c then [(null, isNull)] else []) ++
      (if c.isDigit then [(timestamp, isTimestamp)] else []) ++
      (if c == '=' then [(value, oneOf ["="])] else []) ++
      (if "!&*".contains c then [(yaml, oneOf ["!", "&", "*"])] else [])
    match rules.find? (fun r => r.2 cs) with
    | some (t, _) => t
    | none => str

/-- The tag of a scalar: its own, unless it has none or `!`; then guessed
from the text if it may be, else `str`. -/
def ofScalar (tag : Option String) (guessed : Bool) (text : String) : String :=
  match tag with
  | some t => if t == "!" then (if guessed then guess text else str) else t
  | none => if guessed then guess text else str

/-- The tag of a collection: its own, unless it has none or `!`. -/
def ofCollection (tag : Option String) (kind : String) : String :=
  match tag with
  | some t => if t == "!" then kind else t
  | none => kind

end Tag

end Yaml
end Firewall
