import Firewall.Value.Basic
import Firewall.Decimal.Layout
import Firewall.Text.Quoted

/-!
# Texts of values

Every value has a display text, the one that rule templates and messages
substitute, and a source text, the one containers show for their members.
They differ for texts (the source text is quoted) and for timestamps, and
not at all for the other values: `None`, `True`, `False`, integers in
decimal, doubles by their shortest digits, complex numbers as `(1+2j)` (the
imaginary part alone, `2j`, when the real part is a positive zero), byte
strings as `b'..'` with escapes for the bytes outside printable ASCII.
Lists show `[a, b]`, tuples `(a, b)` (`(a,)` with one item), sets `{a, b}`
(`set()` when empty), plain mappings `{k: v}`, ordered mappings
`OrderedDict([(k, v)])` (`OrderedDict()` when empty), and named objects
their own text.  A container met again inside itself shows as `[...]`,
`(...)`, `{...}` or, for an ordered mapping, `...`.
-/

namespace Firewall

namespace Stamp

/-- Two-digit, four-digit or six-digit zero padding of a number. -/
def pad (width n : Nat) : String :=
  let ds := Nat.toDigits 10 n
  String.ofList (List.replicate (width - ds.length) '0' ++ ds)

/-- The date part, `YYYY-MM-DD`. -/
def dateText (t : Stamp) : String :=
  pad 4 t.year ++ "-" ++ pad 2 t.month ++ "-" ++ pad 2 t.day

/-- An offset from UTC in minutes as `+HH:MM`. -/
def offsetText (minutes : Int) : String :=
  let sign := if minutes < 0 then "-" else "+"
  let m := minutes.natAbs
  sign ++ pad 2 (m / 60) ++ ":" ++ pad 2 (m % 60)

/-- The display text: the date, then the time of day after a blank, with
microseconds only when nonzero and the offset when there is one. -/
def text (t : Stamp) : String :=
  match t.clock with
  | none => t.dateText
  | some c =>
    t.dateText ++ " " ++ pad 2 c.hour ++ ":" ++ pad 2 c.minute ++ ":" ++ pad 2 c.second ++
      (if c.micro == 0 then "" else "." ++ pad 6 c.micro) ++
      (match c.offset with
       | none => ""
       | some o => offsetText o)

/-- The source text of a duration of `minutes`, split into days and seconds. -/
def durationSource (minutes : Int) : String :=
  let secs := minutes * 60
  let days := secs / 86400
  let rest := secs % 86400
  let parts := (if days != 0 then ["days=" ++ toString days] else []) ++
    (if rest != 0 then ["seconds=" ++ toString rest] else [])
  if parts.isEmpty then "datetime.timedelta(0)"
  else "datetime.timedelta(" ++ ", ".intercalate parts ++ ")"

/-- The source text of a date or timestamp; trailing zero seconds and
microseconds are left out. -/
def source (t : Stamp) : String :=
  match t.clock with
  | none => "datetime.date(" ++ ", ".intercalate [toString t.year, toString t.month, toString t.day] ++ ")"
  | some c =>
    let fields := [t.year, t.month, t.day, c.hour, c.minute, c.second, c.micro]
    let fields := if fields.getLast? == some 0 then fields.dropLast else fields
    let fields := if fields.getLast? == some 0 then fields.dropLast else fields
    let zone := match c.offset with
      | none => ""
      | some 0 => ", tzinfo=datetime.timezone.utc"
      | some o => ", tzinfo=datetime.timezone(" ++ durationSource o ++ ")"
    "datetime.datetime(" ++ ", ".intercalate (fields.map toString) ++ zone ++ ")"

end Stamp

namespace Value

/-- The source text of a complex number. -/
def complexSource (re im : UInt64) : String :=
  let part := Decimal.Layout.part.bitsText
  let imText := part im
  if re == 0 then imText ++ "j"
  else
    let signed := if imText.startsWith "-" then imText else "+" ++ imText
    "(" ++ part re ++ signed ++ "j)"

/-- The escape of one byte inside a byte string quoted by `q`. -/
def byteEscape (q : Char) (b : UInt8) : String :=
  let c := Char.ofNat b.toNat
  if c == q || c == '\\' then String.ofList ['\\', c]
  else if c == '\t' then "\\t"
  else if c == '\n' then "\\n"
  else if c == '\r' then "\\r"
  else if b < 32 || b ≥ 127 then "\\x" ++ Text.hexPadded 2 b.toNat
  else c.toString

/-- The source text of a byte string: double quotes only when it holds a
single quote and no double quote. -/
def bytesSource (bs : List UInt8) : String :=
  let q := if bs.contains 39 && !bs.contains 34 then '"' else Text.apostrophe
  "b" ++ q.toString ++ String.join (bs.map (byteEscape q)) ++ q.toString

/-- What a container shows for itself when it is met again inside itself. -/
def recurrence : Value → String
  | .list _ => "[...]"
  | .tuple _ => "(...)"
  | .dict _ => "\x7b...\x7d"
  | .set _ => "set(...)"
  | _ => "..."

mutual
/-- The source text of a value inside the containers `shown`, which are
being shown and show as their recurrence when met again. -/
def sourceIn (shown : List (Nat × String)) : Value → String
  | .null => "None"
  | .bool true => "True"
  | .bool false => "False"
  | .int n => toString n
  | .float bits => Decimal.Layout.value.bitsText bits
  | .complex re im => complexSource re im
  | .str s => Text.quote s
  | .bytes bs => bytesSource bs
  | .stamp t => t.source
  | .list xs => "[" ++ sourceItems shown xs ++ "]"
  | .tuple [x] => "(" ++ sourceIn shown x ++ ",)"
  | .tuple xs => "(" ++ sourceItems shown xs ++ ")"
  | .set [] => "set()"
  | .set xs => "\x7b" ++ sourceItems shown xs ++ "\x7d"
  | .dict kvs => "\x7b" ++ sourceEntries shown kvs ++ "\x7d"
  | .object [] => "OrderedDict()"
  | .object kvs => "OrderedDict([" ++ sourcePairs shown kvs ++ "])"
  | .named _ text => text
  | .cyclic id body =>
    match shown.find? (·.1 == id) with
    | some (_, r) => r
    | none => sourceIn ((id, recurrence body) :: shown) body
  | .again id => ((shown.find? (·.1 == id)).map (·.2)).getD "..."

/-- Source texts of list members, separated by a comma and a blank. -/
def sourceItems (shown : List (Nat × String)) : List Value → String
  | [] => ""
  | [x] => sourceIn shown x
  | x :: y :: rest => sourceIn shown x ++ ", " ++ sourceItems shown (y :: rest)

/-- Source texts of mapping entries, `key: value`, separated by a comma and a blank. -/
def sourceEntries (shown : List (Nat × String)) : List (Value × Value) → String
  | [] => ""
  | [(k, v)] => sourceIn shown k ++ ": " ++ sourceIn shown v
  | (k, v) :: e :: rest => sourceIn shown k ++ ": " ++ sourceIn shown v ++ ", " ++ sourceEntries shown (e :: rest)

/-- Source texts of mapping entries as pairs, `(key, value)`, separated by a
comma and a blank. -/
def sourcePairs (shown : List (Nat × String)) : List (Value × Value) → String
  | [] => ""
  | [(k, v)] => "(" ++ sourceIn shown k ++ ", " ++ sourceIn shown v ++ ")"
  | (k, v) :: e :: rest =>
    "(" ++ sourceIn shown k ++ ", " ++ sourceIn shown v ++ "), " ++ sourcePairs shown (e :: rest)
end

/-- The source text of a value, as containers show their members. -/
def source (v : Value) : String := sourceIn [] v

/-- The display text of a value, as templates substitute it. -/
def text : Value → String
  | .str s => s
  | .stamp t => t.text
  | v => v.source

/-- The text of a value given as an optional name: none when the value counts
as false. -/
def optionalText (v : Value) : Option String := if v.truthy then some v.text else none

@[simp] theorem text_str (s : String) : (Value.str s).text = s := rfl

@[simp] theorem text_int (n : Int) : (Value.int n).text = toString n := rfl

theorem source_tuple_one (x : Value) : (Value.tuple [x]).source = "(" ++ x.source ++ ",)" := by
  simp [source, sourceIn]

end Value

end Firewall
