/-!
# Configuration values

A configuration is a tree of values as JSON and YAML documents denote them:
null, booleans, integers of any size, doubles, complex numbers, texts, byte
strings, YAML timestamps, lists, tuples, sets, mappings, and objects that a
YAML document names by their module and name.  Mappings come in two kinds:
the ordered mappings that documents are read into, and the plain mappings of
an explicit `!!python/dict` tag.

A mapping holds each key once.  Keys compare as the program compares them:
numbers by value across booleans, integers, doubles and complex numbers
(`true`, `1` and `1.0` are one key), timestamps by the instant they denote
when both carry an offset and field by field when neither does, tuples item
by item, everything else by kind and content.  Where a document repeats a
key, the entry keeps its first key and position and takes the last value.

The containers of a document may be shared, and a container may contain
itself.  Sharing does not show in a value, which holds a copy wherever a
container is met; a container that contains itself shows as `cyclic id
body`, in which `again id` stands for the container met again, and
`Value.unfold` puts the whole container there to bring its members into
view.

Main definitions:

- `Value`: the tree.
- `Value.typeName`, `Value.className`: the names of a value's kind, as type
  errors and as serialisation errors show them.
- `Value.truthy`: whether a value counts as a true condition.
- `Value.unfold`: the members of a container that contains itself.
- `Value.sameKey`, `Value.lookup`, `Value.setKey`: keys and the entries under them.
-/

namespace Firewall

/-- A time of day, with microseconds and an optional offset from UTC in minutes. -/
structure Clock where
  hour : Nat
  minute : Nat
  second : Nat
  micro : Nat
  offset : Option Int
deriving Repr, DecidableEq, Inhabited

/-- A calendar date, with a time of day when it is a full timestamp. -/
structure Stamp where
  year : Nat
  month : Nat
  day : Nat
  clock : Option Clock
deriving Repr, DecidableEq, Inhabited

namespace Stamp

/-- Whether a year of the proleptic Gregorian calendar is a leap year. -/
def leap (y : Nat) : Bool := y % 4 == 0 && (y % 100 != 0 || y % 400 == 0)

/-- The days of the months before `m` in year `y`. -/
def daysBeforeMonth (y m : Nat) : Nat :=
  let lengths := [31, if leap y then 29 else 28, 31, 30, 31, 30, 31, 31, 30, 31, 30, 31]
  (lengths.take (m - 1)).foldr (· + ·) 0

/-- The day number of a date, day one being the first of January of year one. -/
def ordinal (t : Stamp) : Nat :=
  let y := t.year - 1
  y * 365 + y / 4 - y / 100 + y / 400 + daysBeforeMonth t.year t.month + t.day

/-- The instant a timestamp with an offset denotes, in microseconds. -/
def instant (t : Stamp) (c : Clock) (offset : Int) : Int :=
  ((((t.ordinal : Int) * 24 + c.hour) * 60 + c.minute - offset) * 60 + c.second) * 1000000 + c.micro

/-- Whether two dates or timestamps are equal: dates by their fields,
timestamps with offsets by their instants, timestamps without offsets by
their fields; a date never equals a timestamp, nor a timestamp with an offset
one without. -/
def same (a b : Stamp) : Bool :=
  match a.clock, b.clock with
  | none, none => a == b
  | some c, some d =>
    match c.offset, d.offset with
    | none, none => a == b
    | some o, some p => instant a c o == instant b d p
    | _, _ => false
  | _, _ => false

end Stamp

/-- A node of a configuration tree.  Doubles are kept by their bits, so that
values have decidable equality. -/
inductive Value where
  | null
  | bool (b : Bool)
  | int (n : Int)
  | float (bits : UInt64)
  | complex (re im : UInt64)
  | str (s : String)
  | bytes (data : List UInt8)
  | stamp (t : Stamp)
  | list (items : List Value)
  | tuple (items : List Value)
  | set (items : List Value)
  | object (entries : List (Value × Value))
  | dict (entries : List (Value × Value))
  | named (kind text : String)
  /-- A container that contains itself: inside `body`, `again id` stands for
  the container. -/
  | cyclic (id : Nat) (body : Value)
  /-- The enclosing container `cyclic id _`, met again. -/
  | again (id : Nat)
deriving Repr, Inhabited

mutual

/-- Structural equality of values. -/
def Value.beq : Value → Value → Bool
  | .null, .null => true
  | .bool a, .bool b => a == b
  | .int a, .int b => a == b
  | .float a, .float b => a == b
  | .complex a b, .complex c d => a == c && b == d
  | .str a, .str b => a == b
  | .bytes a, .bytes b => a == b
  | .stamp a, .stamp b => a == b
  | .list a, .list b => Value.beqList a b
  | .tuple a, .tuple b => Value.beqList a b
  | .set a, .set b => Value.beqList a b
  | .object a, .object b => Value.beqPairs a b
  | .dict a, .dict b => Value.beqPairs a b
  | .named k t, .named k' t' => k == k' && t == t'
  | .cyclic i b, .cyclic j c => i == j && Value.beq b c
  | .again i, .again j => i == j
  | _, _ => false

/-- Structural equality of lists of values. -/
def Value.beqList : List Value → List Value → Bool
  | [], [] => true
  | a :: as, b :: bs => Value.beq a b && Value.beqList as bs
  | _, _ => false

/-- Structural equality of lists of pairs of values. -/
def Value.beqPairs : List (Value × Value) → List (Value × Value) → Bool
  | [], [] => true
  | (a, b) :: as, (c, d) :: bs => Value.beq a c && Value.beq b d && Value.beqPairs as bs
  | _, _ => false

end

instance : BEq Value := ⟨Value.beq⟩

/-- A value equals a text exactly when it is that text. -/
@[simp] theorem Value.beq_str_iff {v : Value} {s : String} : (v == .str s) = true ↔ v = .str s := by
  show Value.beq v (.str s) = true ↔ _
  cases v <;> simp [Value.beq]

@[simp] theorem Value.beq_str_eq_false_iff {v : Value} {s : String} :
    (v == .str s) = false ↔ v ≠ .str s := by
  rw [← Bool.not_eq_true, Value.beq_str_iff]

/-- A number as keys compare it: an integer, a double, or a complex number. -/
inductive Number where
  | whole (n : Int)
  | double (bits : UInt64)
  | pair (re im : UInt64)

namespace Number

/-- The integer that the bits of a double denote, when it is a whole number. -/
def wholeOfBits (bits : UInt64) : Option Int :=
  let e := ((bits >>> 52) &&& 0x7FF).toNat
  let f := (bits &&& 0xFFFFFFFFFFFFF).toNat
  let negative := (bits >>> 63) == 1
  if e == 0x7FF then none
  else
    let m := if e == 0 then f else f + Nat.pow 2 52
    let q : Int := if e == 0 then -1074 else (e : Int) - 1075
    let magnitude : Option Nat :=
      if q ≥ 0 then some (m * Nat.pow 2 q.toNat)
      else if m % Nat.pow 2 (-q).toNat == 0 then some (m / Nat.pow 2 (-q).toNat) else none
    magnitude.map fun k => if negative then -(k : Int) else (k : Int)

/-- The whole part of the double with these bits, rounded toward zero; none
for the infinities and not-a-number. -/
def truncOfBits (bits : UInt64) : Option Int :=
  let e := ((bits >>> 52) &&& 0x7FF).toNat
  let f := (bits &&& 0xFFFFFFFFFFFFF).toNat
  let negative := (bits >>> 63) == 1
  if e == 0x7FF then none
  else
    let m := if e == 0 then f else f + Nat.pow 2 52
    let q : Int := if e == 0 then -1074 else (e : Int) - 1075
    let k := if q ≥ 0 then m * Nat.pow 2 q.toNat else m / Nat.pow 2 (-q).toNat
    some (if negative then -(k : Int) else (k : Int))

/-- Whether the bits of a double are those of not-a-number. -/
def bitsNaN (bits : UInt64) : Bool :=
  ((bits >>> 52) &&& 0x7FF) == 0x7FF && (bits &&& 0xFFFFFFFFFFFFF) != 0

/-- Whether a whole number equals a double. -/
def wholeIs (n : Int) (bits : UInt64) : Bool := wholeOfBits bits == some n

/-- Whether the bits of a double are those of a zero. -/
def bitsZero (bits : UInt64) : Bool := (bits &&& 0x7FFFFFFFFFFFFFFF) == 0

/-- Whether two doubles are one key: equal as numbers, or the very same
not-a-number. -/
def sameDouble (a b : UInt64) : Bool := a == b || Float.ofBits a == Float.ofBits b

/-- Whether a real number, whole or double, equals a double. -/
def realIs : Number → UInt64 → Bool
  | .whole n, bits => wholeIs n bits
  | .double a, bits => Float.ofBits a == Float.ofBits bits
  | .pair _ _, _ => false

/-- Whether two numbers are one key: equal as numbers across the kinds, a
complex number equalling a real one when its imaginary part is zero. -/
def same : Number → Number → Bool
  | .whole a, .whole b => a == b
  | .whole a, .double b => wholeIs a b
  | .double a, .whole b => wholeIs b a
  | .double a, .double b => sameDouble a b
  | .pair r i, .pair r' i' => Float.ofBits r == Float.ofBits r' && Float.ofBits i == Float.ofBits i'
  | .pair r i, x => bitsZero i && realIs x r
  | x, .pair r i => bitsZero i && realIs x r

end Number

namespace Value

/-- A double as a value. -/
def ofFloat (x : Float) : Value := .float x.toBits

/-- A mapping with text keys, in the order given. -/
def record (kvs : List (String × Value)) : Value := .object (kvs.map fun (k, v) => (.str k, v))

/-- The name of a value's kind, as type errors show it. -/
def typeName : Value → String
  | .null => "NoneType"
  | .bool _ => "bool"
  | .int _ => "int"
  | .float _ => "float"
  | .complex _ _ => "complex"
  | .str _ => "str"
  | .bytes _ => "bytes"
  | .stamp t => if t.clock.isSome then "datetime.datetime" else "datetime.date"
  | .list _ => "list"
  | .tuple _ => "tuple"
  | .set _ => "set"
  | .object _ => "collections.OrderedDict"
  | .dict _ => "dict"
  | .named kind _ => kind
  | .cyclic _ body => body.typeName
  | .again _ => "object"

/-- The name of a value's kind without its module, as serialisation errors
show it. -/
def className : Value → String
  | .stamp t => if t.clock.isSome then "datetime" else "date"
  | .object _ => "OrderedDict"
  | .cyclic _ body => body.className
  | v => v.typeName

/-- Whether a value counts as a true condition: everything but null, false,
zero and empty texts and containers. -/
def truthy : Value → Bool
  | .null => false
  | .bool b => b
  | .int n => n != 0
  | .float bits => !Number.bitsZero bits
  | .complex re im => !(Number.bitsZero re && Number.bitsZero im)
  | .str s => !s.isEmpty
  | .bytes bs => !bs.isEmpty
  | .stamp _ => true
  | .list xs | .tuple xs | .set xs => !xs.isEmpty
  | .object kvs | .dict kvs => !kvs.isEmpty
  | .named _ _ => true
  | .cyclic _ _ | .again _ => true

/-- The number a value is, if it is one. -/
def number? : Value → Option Number
  | .bool b => some (.whole (if b then 1 else 0))
  | .int n => some (.whole n)
  | .float bits => some (.double bits)
  | .complex re im => some (.pair re im)
  | _ => none

mutual
/-- Put `r` for the container `id` met again in a value. -/
def replaceAgain (id : Nat) (r : Value) : Value → Value
  | .again j => if j == id then r else .again j
  | .cyclic j body => if j == id then .cyclic j body else .cyclic j (replaceAgain id r body)
  | .list xs => .list (replaceAgainAll id r xs)
  | .tuple xs => .tuple (replaceAgainAll id r xs)
  | .set xs => .set (replaceAgainAll id r xs)
  | .object kvs => .object (replaceAgainEntries id r kvs)
  | .dict kvs => .dict (replaceAgainEntries id r kvs)
  | v => v

/-- `replaceAgain` on each of a list of values. -/
def replaceAgainAll (id : Nat) (r : Value) : List Value → List Value
  | [] => []
  | x :: xs => replaceAgain id r x :: replaceAgainAll id r xs

/-- `replaceAgain` on each value of a list of entries. -/
def replaceAgainEntries (id : Nat) (r : Value) : List (Value × Value) → List (Value × Value)
  | [] => []
  | (k, x) :: rest => (k, replaceAgain id r x) :: replaceAgainEntries id r rest
end

/-- A value with its members in view: a container that contains itself is
shown as its body, in which the container met again is the whole container
once more.  Every other value is its own view. -/
def unfold : Value → Value
  | .cyclic id body => replaceAgain id (.cyclic id body) body
  | v => v

mutual
/-- Whether a value contains a container that contains itself. -/
def hasCycle : Value → Bool
  | .cyclic _ _ | .again _ => true
  | .list xs | .tuple xs | .set xs => hasCycleAll xs
  | .object kvs | .dict kvs => hasCycleEntries kvs
  | _ => false

/-- Whether one of a list of values contains a container that contains itself. -/
def hasCycleAll : List Value → Bool
  | [] => false
  | x :: xs => hasCycle x || hasCycleAll xs

/-- Whether one of a list of entries contains a container that contains itself. -/
def hasCycleEntries : List (Value × Value) → Bool
  | [] => false
  | (k, x) :: rest => hasCycle k || hasCycle x || hasCycleEntries rest
end

/-- The entries of a mapping of either kind. -/
def mapping? (v : Value) : Option (List (Value × Value)) :=
  match v.unfold with
  | .object kvs | .dict kvs => some kvs
  | _ => none

mutual
/-- Whether two values are one key of a mapping. -/
def sameKey : Value → Value → Bool
  | .null, .null => true
  | .str a, .str b => a == b
  | .bytes a, .bytes b => a == b
  | .stamp a, .stamp b => a.same b
  | .tuple xs, .tuple ys => sameKeys xs ys
  | .named k t, .named k' t' => k == k' && t == t'
  | a, b =>
    match a.number?, b.number? with
    | some x, some y => x.same y
    | _, _ => false

/-- Whether two lists of values are item by item one key. -/
def sameKeys : List Value → List Value → Bool
  | [], [] => true
  | x :: xs, y :: ys => sameKey x y && sameKeys xs ys
  | _, _ => false
end

mutual
/-- The kind of the first part of a value that has no hash, if there is one:
lists, sets and mappings have none, and a tuple has one when its items have. -/
def unhashable? : Value → Option String
  | .list _ => some "list"
  | .set _ => some "set"
  | .object _ => some "collections.OrderedDict"
  | .dict _ => some "dict"
  | .tuple xs => unhashableItem? xs
  | .cyclic _ body => unhashable? body
  | _ => none

/-- The kind of the first part without a hash among list items. -/
def unhashableItem? : List Value → Option String
  | [] => none
  | x :: xs =>
    match unhashable? x with
    | some k => some k
    | none => unhashableItem? xs
end

/-- The entry of a mapping under a key. -/
def lookup (kvs : List (Value × Value)) (k : Value) : Option Value :=
  (kvs.find? (fun e => sameKey e.1 k)).map (·.2)

/-- Set a key of a mapping: an existing entry keeps its key and position and
takes the value, a new one goes last. -/
def setKey (kvs : List (Value × Value)) (k v : Value) : List (Value × Value) :=
  if kvs.any (fun e => sameKey e.1 k) then kvs.map (fun e => if sameKey e.1 k then (e.1, v) else e)
  else kvs ++ [(k, v)]

/-- The entries of a list of pairs in document order: repeated keys keep their
first key and position and take the last value. -/
def entriesOfPairs (pairs : List (Value × Value)) : List (Value × Value) :=
  pairs.foldl (fun acc e => setKey acc e.1 e.2) []

@[simp] theorem typeName_str (s : String) : (Value.str s).typeName = "str" := rfl

@[simp] theorem truthy_null : Value.null.truthy = false := rfl

@[simp] theorem sameKey_str (a b : String) : sameKey (.str a) (.str b) = (a == b) := by
  simp [sameKey]

theorem lookup_setKey_self (kvs : List (Value × Value)) (k v : Value) (hk : sameKey k k = true) :
    lookup (setKey kvs k v) k = some v := by
  unfold setKey lookup
  split
  · rename_i h
    induction kvs with
    | nil => simp at h
    | cons e rest ih =>
      by_cases he : sameKey e.1 k = true
      · simp [he]
      · have hk' : sameKey e.1 k = false := by simpa using he
        simp only [List.map_cons, hk', Bool.false_eq_true, if_false, List.find?_cons]
        simp only [List.any_cons, hk', Bool.false_or] at h
        exact ih h
  · rename_i h
    simp only [List.any_eq_true, not_exists, not_and] at h
    rw [List.find?_append]
    have : List.find? (fun x => sameKey x.1 k) kvs = none := by
      rw [List.find?_eq_none]
      intro x hx
      simpa using h x hx
    simp [this, hk]

end Value

end Firewall
