import Firewall.Yaml.Event
import Firewall.Yaml.Tag

/-!
# YAML nodes

**Nodes.**  The events of a document compose a graph of nodes: scalars with
their text, sequences of nodes and mappings of pairs of nodes, each with its
resolved tag and where it starts.  Nodes live in an array and refer to each
other by index, so that an alias is the node its anchor named, the same node
wherever it is used; a node may even contain itself.

**Composing.**  An anchor names its node from its start on, so an alias may
refer to an enclosing node.  An alias to an anchor not seen yet, and an
anchor used twice, are failures.  A stream holds at most one document: a
second one is a failure once its start is read.  Nodes may nest at most
`Compose.composeDepth` levels below the root.
-/

namespace Firewall
namespace Yaml

/-- What a node holds. -/
inductive Body where
  | scalar (text : String)
  | sequence (items : List Nat)
  | mapping (pairs : List (Nat × Nat))
deriving Repr, DecidableEq, Inhabited

/-- A node: its tag, what it holds and where it starts. -/
structure Node where
  tag : String
  body : Body
  start : Place
deriving Repr, DecidableEq, Inhabited

/-- The kind of a node, as failures name it. -/
def Node.kind (n : Node) : String :=
  match n.body with
  | .scalar _ => "scalar"
  | .sequence _ => "sequence"
  | .mapping _ => "mapping"

/-- The nodes of a document and its root. -/
structure Graph where
  nodes : Array Node
  root : Nat
deriving Repr, Inhabited

/-- The state of composing: the events and how many were read, the nodes so
far and the anchors seen. -/
structure Composer where
  events : Events
  pos : Nat
  nodes : Array Node
  anchors : List (String × Nat)
deriving Repr, Inhabited

/-- A step of composing. -/
abbrev ComposeM := StateT Composer (Except Problem)

namespace Compose

/-- The next event. -/
def peekEvent : ComposeM Event := do
  let s ← get
  match s.events.items[s.pos]? with
  | some e => return e
  | none =>
    match s.events.failure with
    | some p => throw p
    | none => return (s.events.items.back?.getD default)

/-- Read the next event. -/
def getEvent : ComposeM Event := do
  let e ← peekEvent
  modify fun s => { s with pos := s.pos + 1 }
  return e

/-- How deep nodes may nest. -/
def composeDepth : Nat := 492

/-- Fail, marked. -/
def fail (context : Option String) (contextPlace : Option Place) (problem : String) (p : Place) :
    ComposeM α :=
  throw (.marked ⟨.composer, context, contextPlace, problem, p⟩)

/-- Add a node, naming it by its anchor, and give its index. -/
def addNode (anchor : Option String) (n : Node) : ComposeM Nat := do
  let s ← get
  let i := s.nodes.size
  let anchors := match anchor with
    | some a => s.anchors ++ [(a, i)]
    | none => s.anchors
  set { s with nodes := s.nodes.push n, anchors := anchors }
  return i

/-- Set what a node holds. -/
def setBody (i : Nat) (b : Body) : ComposeM Unit :=
  modify fun s => { s with nodes := s.nodes.modify i fun n => { n with body := b } }

/-- Fail if an anchor names a node already. -/
def fresh (anchor : Option String) (e : Event) : ComposeM Unit := do
  match anchor with
  | none => pure ()
  | some a =>
    let s ← get
    match s.anchors.find? (·.1 == a) with
    | some (_, i) =>
      fail (some ("found duplicate anchor " ++ Text.quote a ++ "; first occurrence"))
        (some (s.nodes.getD i default).start) "second occurrence" e.start
    | none => pure ()

mutual
/-- Compose a node from the events, at a level of nesting. -/
def node : Nat → Nat → ComposeM Nat
  | 0, _ => return 0
  | fuel + 1, level => do
    if level > composeDepth then throw (.plain .recursion)
    let e ← peekEvent
    match e.kind with
    | .alias a =>
      let _ ← getEvent
      match (← get).anchors.find? (·.1 == a) with
      | some (_, i) => return i
      | none => fail none none ("found undefined alias " ++ Text.quote a) e.start
    | .scalar anchor tag guessed text =>
      fresh anchor e
      let _ ← getEvent
      addNode anchor ⟨Tag.ofScalar tag guessed text, .scalar text, e.start⟩
    | .sequenceStart anchor tag =>
      fresh anchor e
      let _ ← getEvent
      let i ← addNode anchor ⟨Tag.ofCollection tag Tag.seq, .sequence [], e.start⟩
      let items ← items fuel (level + 1) []
      setBody i (.sequence items)
      let _ ← getEvent
      return i
    | .mappingStart anchor tag =>
      fresh anchor e
      let _ ← getEvent
      let i ← addNode anchor ⟨Tag.ofCollection tag Tag.map, .mapping [], e.start⟩
      let pairs ← pairs fuel (level + 1) []
      setBody i (.mapping pairs)
      let _ ← getEvent
      return i
    | _ =>
      let _ ← getEvent
      addNode none ⟨Tag.null, .scalar "", e.start⟩

/-- Compose the items of a sequence up to its end, at a level of nesting. -/
def items : Nat → Nat → List Nat → ComposeM (List Nat)
  | 0, _, acc => return acc
  | fuel + 1, level, acc => do
    if (← peekEvent).kind == .sequenceEnd then return acc
    let i ← node fuel level
    items fuel level (acc ++ [i])

/-- Compose the pairs of a mapping up to its end, at a level of nesting. -/
def pairs : Nat → Nat → List (Nat × Nat) → ComposeM (List (Nat × Nat))
  | 0, _, acc => return acc
  | fuel + 1, level, acc => do
    if (← peekEvent).kind == .mappingEnd then return acc
    let k ← node fuel level
    let v ← node fuel level
    pairs fuel level (acc ++ [(k, v)])
end

/-- Compose the single document of a stream, if it has one. -/
def single : ComposeM (Option Graph) := do
  let _ ← getEvent
  let fuel := 2 * ((← get).events.items.size + 2)
  let doc ← if (← peekEvent).kind == .streamEnd then pure none else do
    let _ ← getEvent
    let root ← node fuel 0
    let _ ← getEvent
    pure (some root)
  let e ← peekEvent
  if e.kind != .streamEnd then
    let _ ← getEvent
    let nodes := (← get).nodes
    let docStart := match doc with
      | some root => (nodes.getD root default).start
      | none => e.start
    fail (some "expected a single document in the stream") (some docStart) "but found another document" e.start
  let _ ← getEvent
  match doc with
  | none => return none
  | some root => return some ⟨(← get).nodes, root⟩

end Compose

/-- The node graph of the single document of a text's events, if any. -/
def Graph.compose (es : Events) : Except Problem (Option Graph) :=
  (Compose.single.run' ⟨es, 0, #[], []⟩)

@[simp] theorem Node.kind_scalar (t : String) (s : String) (p : Place) :
    (Node.mk t (.scalar s) p).kind = "scalar" := rfl

end Yaml
end Firewall
