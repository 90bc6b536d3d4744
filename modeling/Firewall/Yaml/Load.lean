import Firewall.Yaml.Node
import Firewall.Yaml.Library
import Firewall.Decimal.Read
import Firewall.Decimal.Complex
import Firewall.Text.Base64
import Firewall.Value.Hash
import Firewall.Value.Store

/-!
# Values of YAML documents

**Input.**  The node graph of a document, from `Graph.compose`.

**Construction.**  Each node is made into a value by its tag:

- from a scalar's text: `null`, `bool`, `int`, `float`, `timestamp`, `str`,
  `binary` (base64 text into bytes), and among the Python tags `none`,
  `bool`, `str`, `unicode`, `bytes`, `int`, `long`, `float`, `complex`, and
  `name:` and `module:` followed by the name of an object of a known module
  or of a known module (the text must then be empty);
- from a sequence: `seq` and Python `list` into a list, Python `tuple` into a
  tuple, `omap` and `pairs` into a list of key and value tuples;
- from a mapping: `map` into a mapping that keeps the order of its keys,
  Python `dict` into a plain mapping, `set` into the set of its keys, in the
  order of `Value.setOrder`.

Any other tag is a failure.

**Order.**  Nodes are made in a fixed order, which decides which failure is
met first.  Scalars, tuples and ordered mappings are made at once: a mapping
key and value after key and value, after its merge keys `<<` are replaced by
the pairs of the mappings they name (a list of mappings in reverse, so that
the first one wins, and all before the mapping's own pairs), and then its
keys are checked.  Lists, sets, plain mappings and pair lists are filled
afterwards, in rounds, those met in one round filled in the next; a set or a
plain mapping checks each key before it makes the key's value.  A node that
contains itself through nodes made at once cannot be made.

**Keys.**  Keys must have a hash: lists, sets and mappings have none, a
tuple has one when its items have.  Two equal keys (`Value.sameKey`) make one
entry: the first one's place with the last one's value.

**Depth.**  Making a node nests the making of the nodes inside it, three
levels deeper for mappings, four for tuples; a node filled later starts over
at three levels (one for the items of pair lists).  Nesting beyond
`constructDepth` levels is a failure.

**Sharing.**  A node named in several places makes one container:
`Graph.doc` puts the container of each node under the node's own number in
a store, and members that are containers refer to it there.  Keys and the
members of sets are values.

`Yaml.loadDoc` reads a document all the way: characters, tokens, events,
nodes, containers; `Yaml.load` gives its value.  An empty document is null.
-/

namespace Firewall
namespace Yaml

/-- How a node's value is made. -/
inductive Maker where
  | null
  | bool
  | int
  | float
  | timestamp
  | str
  | binary
  | complex
  | seq
  | tuple
  | set
  | omap
  | pairs
  | map
  | dict
  | name (path : String)
  | module (path : String)
  | unknown
deriving Repr, DecidableEq, Inhabited

namespace Maker

/-- The makers of the tags that name one. -/
def byTag : List (String × Maker) :=
  [(Tag.null, .null), (Tag.bool, .bool), (Tag.int, .int), (Tag.float, .float),
   (Tag.binary, .binary), (Tag.timestamp, .timestamp), (Tag.omap, .omap),
   (Tag.pairs, .pairs), (Tag.set, .set), (Tag.str, .str), (Tag.seq, .seq), (Tag.map, .map),
   (Tag.python ++ "none", .null), (Tag.python ++ "bool", .bool), (Tag.python ++ "str", .str),
   (Tag.python ++ "unicode", .str), (Tag.python ++ "bytes", .binary),
   (Tag.python ++ "int", .int), (Tag.python ++ "long", .int), (Tag.python ++ "float", .float),
   (Tag.python ++ "complex", .complex), (Tag.python ++ "list", .seq),
   (Tag.python ++ "tuple", .tuple), (Tag.python ++ "dict", .dict)]

/-- The prefix of the tags that name a built-in object. -/
def namePrefix : String := Tag.python ++ "name:"

/-- The prefix of the tags that name a module. -/
def modulePrefix : String := Tag.python ++ "module:"

/-- The maker of a tag. -/
def ofTag (t : String) : Maker :=
  match byTag.find? (·.1 == t) with
  | some (_, m) => m
  | none =>
    if t.startsWith namePrefix then .name (String.ofList (t.toList.drop namePrefix.length))
    else if t.startsWith modulePrefix then .module (String.ofList (t.toList.drop modulePrefix.length))
    else .unknown

/-- Whether the maker fills its value after the node that holds it is made. -/
def later : Maker → Bool
  | .seq | .set | .omap | .pairs | .dict => true
  | _ => false

/-- The kind of the value the maker makes, when values of that kind have no
hash; tuples are left to their items. -/
def unhashable : Maker → Option String
  | .seq | .omap | .pairs => some "list"
  | .set => some "set"
  | .dict => some "dict"
  | .map => some "collections.OrderedDict"
  | _ => none

end Maker

/-- How deep the making of nodes may nest. -/
def constructDepth : Nat := 987

/-! ## Scalars -/

/-- The booleans by their lower-case words. -/
def boolWords : List (String × Bool) :=
  [("yes", true), ("no", false), ("true", true), ("false", false), ("on", true), ("off", false)]

/-- Fail when an integer text does not read in a base. -/
def intIn (base : Nat) (s : String) : Except Fault Int :=
  match Text.integerIn base s with
  | .ok n => .ok n
  | .error (.tooLong n) => .error (.intDigits n)
  | .error .malformed => .error (.intLiteral base s)

/-- The value of base-60 parts, the last the units. -/
def sixties (parts : List Int) : Int := parts.foldl (fun acc d => acc * 60 + d) 0

/-- The integer of a YAML integer text: underscores dropped, then sign,
binary `0b`, hexadecimal `0x`, octal after a leading zero, base 60 with `:`,
or decimal. -/
def intOf (text : String) : Except Fault Int := do
  let v := String.ofList (text.toList.filter (· != '_'))
  match v.toList with
  | [] => throw .textIndexRange
  | c :: _ =>
    let sign : Int := if c == '-' then -1 else 1
    let body := if c == '+' || c == '-' then String.ofList (v.toList.drop 1) else v
    if body == "0" then return 0
    else if body.startsWith "0b" then return sign * (← intIn 2 (String.ofList (body.toList.drop 2)))
    else if body.startsWith "0x" then return sign * (← intIn 16 (String.ofList (body.toList.drop 2)))
    else
      match body.toList with
      | [] => throw .textIndexRange
      | '0' :: _ => return sign * (← intIn 8 body)
      | _ =>
        if body.contains ':' then
          let parts ← (body.splitOn ":").mapM (intIn 10)
          return sign * sixties parts
        else return sign * (← intIn 10 body)

/-- Fail when a decimal text does not read. -/
def floatIn (s : String) : Except Fault Float :=
  match Decimal.read? s with
  | some x => .ok x
  | none => .error (.floatLiteral s)

/-- The double of a YAML float text: underscores dropped and lower case,
then sign, `.inf`, `.nan`, base 60 with `:`, or a decimal. -/
def floatOf (text : String) : Except Fault Float := do
  let v := String.ofList ((text.toList.filter (· != '_')).map Char.toLower)
  match v.toList with
  | [] => throw .textIndexRange
  | c :: _ =>
    let negative := c == '-'
    let body := if c == '+' || c == '-' then String.ofList (v.toList.drop 1) else v
    let signed := fun (x : Float) => if negative then -x else x
    if body == ".inf" then return signed Decimal.infinity
    else if body == ".nan" then return Decimal.notANumber
    else if body.contains ':' then
      let parts ← (body.splitOn ":").mapM floatIn
      let (total, _) := parts.reverse.foldl
        (fun (acc : Float × Nat) d => (acc.1 + d * Float.ofNat acc.2, acc.2 * 60)) (0.0, 1)
      return signed total
    else return signed (← floatIn body)

/-- The escape of a code point in a message about encoding it. -/
def codeEscape (n : Nat) : String :=
  if n < 0x100 then "\\x" ++ Text.hexPadded 2 n
  else if n < 0x10000 then "\\u" ++ Text.hexPadded 4 n
  else "\\U" ++ Text.hexPadded 8 n

/-- Why a text has no ASCII encoding, if it has none: the first run of
characters beyond ASCII, by its positions. -/
def asciiProblem (s : String) : Option String :=
  let cs := Text.codePoints s
  match cs.findIdx? (fun c => c ≥ 128) with
  | none => none
  | some i =>
    let run := ((cs.drop i).takeWhile fun c => c ≥ 128).length
    let what := match cs[i]? with
      | some c =>
        if run == 1 then "character " ++ Text.apostrophe.toString ++ codeEscape c ++
          Text.apostrophe.toString ++ " in position " ++ toString i
        else "characters in position " ++ toString i ++ "-" ++ toString (i + run - 1)
      | none => ""
    some (Text.apostrophe.toString ++ "ascii" ++ Text.apostrophe.toString ++ " codec can" ++
      Text.apostrophe.toString ++ "t encode " ++ what ++ ": ordinal not in range(128)")

/-- Fail while making a node, marked at its start. -/
def constructorFailure (context : Option String) (problem : String) (start : Place) : Problem :=
  .marked ⟨.constructor, context, context.map fun _ => start, problem, start⟩

/-- Import a module by its path, failing with the context given. -/
def importModule (context : String) (start : Place) (name : String) : Except Problem Module :=
  if name.isEmpty then .error (.plain .emptyModule)
  else
    match Library.missing (name.splitOn ".").reverse, Library.find? name with
    | none, some m => .ok m
    | some why, _ =>
      .error (constructorFailure (some context)
        ("cannot find module " ++ Text.quote name ++ " (" ++ why ++ ")") start)
    | none, none =>
      .error (constructorFailure (some context)
        ("cannot find module " ++ Text.quote name ++ " (No module named " ++ Text.quote name ++ ")") start)

/-- The object a tag names: the part after the last dot is its name, the
part before it the path of its module, the module of built-in objects when
there is no dot. -/
def namedObject (start : Place) (path : String) : Except Problem Value := do
  let context := "while constructing a Python object"
  if path.isEmpty then throw (constructorFailure (some context) "expected non-empty name appended to the tag" start)
  let parts := path.splitOn "."
  let (moduleName, objectName) := match parts.reverse with
    | last :: before@(_ :: _) => (".".intercalate before.reverse, last)
    | _ => (Builtin.moduleName, path)
  let m ← importModule context start moduleName
  match m.find? objectName with
  | some v => pure v
  | none =>
    throw (constructorFailure (some context)
      ("cannot find " ++ Text.quote objectName ++ " in the module " ++ Text.quote m.name) start)

/-- The value of a scalar text made by a scalar maker, for a node starting at `start`. -/
def scalarValue (m : Maker) (start : Place) (text : String) : Except Problem Value :=
  let plain := fun (r : Except Fault Value) => r.mapError Problem.plain
  match m with
  | .null => .ok .null
  | .bool =>
    let word := String.ofList (text.toList.map Char.toLower)
    match boolWords.find? (·.1 == word) with
    | some (_, b) => .ok (.bool b)
    | none => .error (.plain (.missingKey (Text.quote word)))
  | .int => plain (Value.int <$> intOf text)
  | .float => plain (Value.ofFloat <$> floatOf text)
  | .timestamp =>
    match StampText.read? text.toList with
    | some t => plain (Value.stamp <$> t.toStamp)
    | none => .error (.plain (.noAttribute "NoneType" "groupdict"))
  | .binary =>
    match asciiProblem text with
    | some why => .error (constructorFailure none ("failed to convert base64 data into ascii: " ++ why) start)
    | none =>
      match Base64.decode text.toList with
      | .ok bs => .ok (.bytes bs)
      | .error e => .error (constructorFailure none ("failed to decode base64 data: " ++ e.message) start)
  | .complex =>
    match Decimal.complex? text with
    | .ok (re, im) => .ok (.complex re im)
    | .error .malformed => .error (.plain .complexLiteral)
    | .error .underscore => .error (.plain (.complexText text))
  | .name path =>
    if text.isEmpty then namedObject start path
    else .error (constructorFailure (some "while constructing a Python name")
      ("expected the empty value, but found " ++ Text.quote text) start)
  | .module path =>
    let context := "while constructing a Python module"
    if !text.isEmpty then
      .error (constructorFailure (some context) ("expected the empty value, but found " ++ Text.quote text) start)
    else if path.isEmpty then
      .error (constructorFailure (some context) "expected non-empty name appended to the tag" start)
    else do
      let m ← importModule context start path
      pure m.value
  | _ => .ok (.str text)

/-! ## Making the nodes, in order -/

/-- The state of making values: the nodes (merge keys change them), which
are made, which are being made, and the nodes still to fill. -/
structure Build where
  nodes : Array Node
  built : Array Bool
  active : List Nat
  pending : List Nat
deriving Repr, Inhabited

/-- A step of making values. -/
abbrev BuildM := StateT Build (Except Problem)

namespace Build

/-- A node. -/
def nodeAt (i : Nat) : BuildM Node := do return (← get).nodes.getD i default

/-- The pairs of a mapping node, none for other nodes. -/
def pairsAt (i : Nat) : BuildM (List (Nat × Nat)) := do
  match (← nodeAt i).body with
  | .mapping ps => return ps
  | _ => return []

/-- Set the pairs of a mapping node. -/
def setPairs (i : Nat) (ps : List (Nat × Nat)) : BuildM Unit :=
  modify fun s => { s with nodes := s.nodes.modify i fun n => { n with body := .mapping ps } }

/-- Set the tag of a node. -/
def setTag (i : Nat) (t : String) : BuildM Unit :=
  modify fun s => { s with nodes := s.nodes.modify i fun n => { n with tag := t } }

/-- Fail, marked. -/
def fail (context : Option String) (contextPlace : Option Place) (problem : String) (p : Place) :
    BuildM α :=
  throw (.marked ⟨.constructor, context, contextPlace, problem, p⟩)

/-- Fail with a plain fault. -/
def lift (r : Except Fault α) : BuildM α :=
  match r with
  | .ok a => pure a
  | .error f => throw (.plain f)

/-- The name of a node's class, as unpacking failures show it. -/
def nodeClass (n : Node) : String :=
  match n.body with
  | .scalar _ => "ScalarNode"
  | .sequence _ => "SequenceNode"
  | .mapping _ => "MappingNode"

/-- The text of a scalar node, or of the value under a `=` key of a mapping. -/
def scalarText : Nat → Nat → BuildM String
  | 0, _ => throw (.plain .recursion)
  | fuel + 1, i => do
    let n ← nodeAt i
    match n.body with
    | .scalar t => return t
    | .mapping ps =>
      let nodes := (← get).nodes
      match ps.find? (fun (k, _) => (nodes.getD k default).tag == Tag.value) with
      | some (_, v) => scalarText fuel v
      | none => fail none none "expected a scalar node, but found mapping" n.start
    | .sequence _ => fail none none "expected a scalar node, but found sequence" n.start

mutual
/-- Replace the merge keys of a mapping node by the pairs they merge. -/
def flatten : Nat → Nat → BuildM Unit
  | 0, _ => throw (.plain .recursion)
  | fuel + 1, i => do
    let n ← nodeAt i
    match n.body with
    | .scalar t => if t.isEmpty then pure () else throw (.plain (.tooFewValues 1))
    | .sequence items =>
      match items.head? with
      | none => pure ()
      | some j => throw (.plain (.notUnpackable (nodeClass (← nodeAt j))))
    | .mapping _ =>
      let merged ← walk fuel i fuel 0 []
      if !merged.isEmpty then setPairs i (merged ++ (← pairsAt i))

/-- Walk the pairs of mapping node `i` from `index`, gathering merged pairs. -/
def walk : Nat → Nat → Nat → Nat → List (Nat × Nat) → BuildM (List (Nat × Nat))
  | 0, _, _, _, merged => return merged
  | _, _, 0, _, merged => return merged
  | fuel + 1, i, steps + 1, index, merged => do
    let ps ← pairsAt i
    match ps[index]? with
    | none => return merged
    | some (k, v) =>
      let kn ← nodeAt k
      if kn.tag == Tag.merge then
        setPairs i (ps.eraseIdx index)
        let vn ← nodeAt v
        let here := (← nodeAt i).start
        match vn.body with
        | .mapping _ =>
          flatten fuel v
          let more ← pairsAt v
          walk (fuel + 1) i steps index (merged ++ more)
        | .sequence subs =>
          let groups ← subMerges fuel here subs []
          walk (fuel + 1) i steps index (merged ++ groups.reverse.flatten)
        | .scalar _ =>
          fail (some "while constructing a mapping") (some here)
            "expected a mapping or list of mappings for merging, but found scalar" vn.start
      else
        if kn.tag == Tag.value then setTag k Tag.str
        walk (fuel + 1) i steps (index + 1) merged

/-- Flatten the mappings of a merged list, gathering their pairs. -/
def subMerges : Nat → Place → List Nat → List (List (Nat × Nat)) → BuildM (List (List (Nat × Nat)))
  | 0, _, _, acc => return acc
  | _, _, [], acc => return acc
  | fuel + 1, here, s :: rest, acc => do
    let sn ← nodeAt s
    match sn.body with
    | .mapping _ =>
      flatten fuel s
      let ps ← pairsAt s
      subMerges (fuel + 1) here rest (acc ++ [ps])
    | _ =>
      fail (some "while constructing a mapping") (some here)
        ("expected a mapping for merging, but found " ++ sn.kind) sn.start
end

/-- Fail with the failure of a step outside the state. -/
def liftProblem (r : Except Problem α) : BuildM α :=
  match r with
  | .ok a => pure a
  | .error p => throw p

/-- The kind of the first part without a hash of the value a node makes, as
it stands when the node is made: lists, sets and mappings have no hash, and
a tuple has one when the items it is made of have. -/
def keyProblem (nodes : Array Node) : Nat → Nat → Option String
  | 0, _ => none
  | fuel + 1, i =>
    let n := nodes.getD i default
    match Maker.ofTag n.tag with
    | .tuple =>
      match n.body with
      | .sequence items => items.findSome? (keyProblem nodes fuel)
      | _ => none
    | m => m.unhashable

mutual
/-- Make a node at a depth, unless it is made already. -/
def make : Nat → Nat → Nat → BuildM Unit
  | 0, _, _ => throw (.plain .recursion)
  | fuel + 1, depth, i => do
    if depth > constructDepth then throw (.plain .recursion)
    let s ← get
    if s.built.getD i false then return
    let n ← nodeAt i
    if s.active.contains i then fail none none "found unconstructable recursive node" n.start
    modify fun s => { s with active := i :: s.active }
    let m := Maker.ofTag n.tag
    match m with
    | .unknown =>
      fail none none ("could not determine a constructor for the tag " ++ Text.quote n.tag) n.start
    | .seq | .set | .omap | .pairs | .dict => modify fun s => { s with pending := s.pending ++ [i] }
    | .map =>
      flatten fuel i
      makePairs fuel depth i
    | .tuple =>
      match n.body with
      | .sequence items => makeEach fuel (depth + 4) items
      | _ => fail none none ("expected a sequence node, but found " ++ n.kind) n.start
    | _ =>
      let t ← scalarText fuel i
      -- the timestamp pattern is matched against the node's own content,
      -- which for a mapping is its list of pairs
      if m == .timestamp && n.kind != "scalar" then throw (.plain (.notText "list"))
      let _ ← liftProblem (scalarValue m n.start t)
      pure ()
    modify fun s => { s with built := s.built.setIfInBounds i true, active := s.active.erase i }

/-- Make the keys and values of a mapping node, then check that its keys have a hash. -/
def makePairs : Nat → Nat → Nat → BuildM Unit
  | 0, _, _ => throw (.plain .recursion)
  | fuel + 1, depth, i => do
    let n ← nodeAt i
    match n.body with
    | .mapping ps =>
      makeEach fuel (depth + 3) (ps.flatMap fun (k, v) => [k, v])
      let nodes := (← get).nodes
      match ps.findSome? (fun (k, _) => keyProblem nodes (nodes.size + 1) k) with
      | some kind => throw (.plain (.unhashable kind))
      | none => pure ()
    | _ => fail none none ("expected a mapping node, but found " ++ n.kind) n.start

/-- Make nodes in order, at one depth. -/
def makeEach : Nat → Nat → List Nat → BuildM Unit
  | 0, _, _ => throw (.plain .recursion)
  | _, _, [] => pure ()
  | fuel + 1, depth, j :: rest => do
    make fuel depth j
    makeEach (fuel + 1) depth rest
end

/-- Make the pairs of a set or plain mapping node: each key, a check that it
is no list, set or mapping, its value, then a check that the key has a hash. -/
def fillMapping (fuel : Nat) (n : Node) (ps : List (Nat × Nat)) : BuildM Unit := do
  for (k, v) in ps do
    make fuel 3 k
    let nodes := (← get).nodes
    let kn := nodes.getD k default
    if (Maker.ofTag kn.tag).unhashable.isSome then
      fail (some "while constructing a mapping") (some n.start) "found unhashable key" kn.start
    make fuel 3 v
    match keyProblem nodes (nodes.size + 1) k with
    | some kind => throw (.plain (.unhashable kind))
    | none => pure ()

/-- Fill a node made earlier: make its items, its pairs, or its keys and values. -/
def fill (fuel : Nat) (i : Nat) : BuildM Unit := do
  let n ← nodeAt i
  match Maker.ofTag n.tag with
  | .seq =>
    match n.body with
    | .sequence items => makeEach fuel 3 items
    | _ => fail none none ("expected a sequence node, but found " ++ n.kind) n.start
  | .omap | .pairs =>
    let context := if Maker.ofTag n.tag == .omap then "while constructing an ordered map"
      else "while constructing pairs"
    match n.body with
    | .sequence items =>
      for j in items do
        let sub ← nodeAt j
        match sub.body with
        | .mapping [(k, v)] => makeEach fuel 1 [k, v]
        | .mapping ps =>
          fail (some context) (some n.start)
            ("expected a single mapping item, but found " ++ toString ps.length ++ " items") sub.start
        | _ =>
          fail (some context) (some n.start) ("expected a mapping of length 1, but found " ++ sub.kind)
            sub.start
    | _ => fail (some context) (some n.start) ("expected a sequence, but found " ++ n.kind) n.start
  | .set | .dict =>
    match n.body with
    | .mapping _ =>
      flatten fuel i
      fillMapping fuel n (← pairsAt i)
    | _ => fail none none ("expected a mapping node, but found " ++ n.kind) n.start
  | _ => pure ()

/-- Fill the nodes in rounds until none is left. -/
def rounds (fuel : Nat) : Nat → BuildM Unit
  | 0 => pure ()
  | k + 1 => do
    let waiting := (← get).pending
    if waiting.isEmpty then return
    modify fun s => { s with pending := [] }
    for i in waiting do fill fuel i
    rounds fuel k

/-- Make a document's nodes from its root, then fill the nodes left to fill. -/
def all (fuel root count : Nat) : BuildM Unit := do
  make fuel 0 root
  rounds fuel count

end Build

/-! ## The values -/

/-- The text of a scalar node, or of the value under a `=` key of a mapping. -/
def scalarTextOf (nodes : Array Node) : Nat → Nat → Option String
  | 0, _ => none
  | fuel + 1, i =>
    match (nodes.getD i default).body with
    | .scalar t => some t
    | .mapping ps =>
      match ps.find? (fun (k, _) => (nodes.getD k default).tag == Tag.value) with
      | some (_, v) => scalarTextOf nodes fuel v
      | none => none
    | .sequence _ => none

/-- The value of a made node; a node that contains itself has none. -/
def valueOf (nodes : Array Node) : Nat → Nat → Except Problem Value
  | 0, _ => .error (.plain .recursion)
  | fuel + 1, i =>
    let n := nodes.getD i default
    let pairValues := fun (ps : List (Nat × Nat)) =>
      ps.mapM fun (k, v) => do pure (← valueOf nodes fuel k, ← valueOf nodes fuel v)
    match Maker.ofTag n.tag, n.body with
    | .seq, .sequence items => Value.list <$> items.mapM (valueOf nodes fuel)
    | .tuple, .sequence items => Value.tuple <$> items.mapM (valueOf nodes fuel)
    | .omap, .sequence items | .pairs, .sequence items =>
      Value.list <$> items.mapM fun j =>
        match (nodes.getD j default).body with
        | .mapping [(k, v)] => do pure (.tuple [← valueOf nodes fuel k, ← valueOf nodes fuel v])
        | _ => .ok .null
    | .map, .mapping ps => do pure (.object (Value.entriesOfPairs (← pairValues ps)))
    | .dict, .mapping ps => do pure (.dict (Value.entriesOfPairs (← pairValues ps)))
    | .set, .mapping ps => do pure (.set (Value.setOrder ((Value.entriesOfPairs (← pairValues ps)).map (·.1))))
    | m, _ =>
      match scalarTextOf nodes (fuel + 1) i with
      | some t => scalarValue m n.start t
      | none => .ok .null

/-- Whether a maker makes a container of the store. -/
def Maker.stored : Maker → Bool
  | .seq | .tuple | .omap | .pairs | .map | .dict => true
  | _ => false

/-- The member a made node gives: the container under the node's own number,
or the node's value. -/
def slotOf (nodes : Array Node) (fuel i : Nat) : Except Problem Slot :=
  if (Maker.ofTag (nodes.getD i default).tag).stored then .ok (.ref i)
  else Slot.val <$> valueOf nodes fuel i

/-- Put the container of a made node under its number, and the key and value
tuples of a pair list after the others. -/
def cellOf (nodes : Array Node) (fuel : Nat) (s : Store) (i : Nat) : Except Problem Store :=
  let n := nodes.getD i default
  let entries := fun (ps : List (Nat × Nat)) =>
    slotEntries <$> ps.mapM fun (k, v) => do pure (← valueOf nodes fuel k, ← slotOf nodes fuel v)
  match Maker.ofTag n.tag, n.body with
  | .seq, .sequence items => do pure (s.put i (.list (← items.mapM (slotOf nodes fuel))))
  | .tuple, .sequence items => do pure (s.put i (.tuple (← items.mapM (slotOf nodes fuel))))
  | .omap, .sequence items | .pairs, .sequence items => do
    let (s, tuples) ← items.foldlM (fun (acc : Store × List Slot) j =>
      match (nodes.getD j default).body with
      | .mapping [(k, v)] => do
        let (s', id) := acc.1.add (.tuple [← slotOf nodes fuel k, ← slotOf nodes fuel v])
        pure (s', acc.2 ++ [.ref id])
      | _ => pure (acc.1, acc.2 ++ [.val .null])) (s, [])
    pure (s.put i (.list tuples))
  | .map, .mapping ps => do pure (s.put i (.object (← entries ps)))
  | .dict, .mapping ps => do pure (s.put i (.dict (← entries ps)))
  | _, _ => pure s

/-- The document of a node graph: each node that makes a container is the
container under the node's number, so that a node named in several places
is one container. -/
def Graph.doc (g : Graph) : Except Problem Doc := do
  let n := g.nodes.size
  let fuel := 4 * (n + 2)
  let start : Build := ⟨g.nodes, Array.replicate n false, [], []⟩
  let ((), b) ← (Build.all fuel g.root (n + 2)).run start
  let store ← (List.range n).foldlM (cellOf b.nodes (n + 2)) ⟨Array.replicate n (.list [])⟩
  pure ⟨store, ← slotOf b.nodes (n + 2) g.root⟩

/-- Read a YAML document. -/
def loadDoc (d : Document) : Except Fault Doc :=
  let read := fun (limit : Option (Nat × Fault)) =>
    Graph.compose (Events.parse (Tokens.scanUpTo limit d.scanText)) >>= fun g? =>
      match g? with
      | none => pure (Doc.ofValue .null)
      | some g => g.doc
  let outcome : Except Problem Doc := match d.refusal with
    | some (0, f) => .error (.plain f)
    | limit => read limit
  match outcome with
  | .ok v => .ok v
  | .error p => .error (d.fault p)

/-- Read a YAML document into a value. -/
def load (d : Document) : Except Fault Value := Doc.read <$> loadDoc d

@[simp] theorem Maker.ofTag_str : Maker.ofTag Tag.str = .str := by
  decide

end Yaml
end Firewall
