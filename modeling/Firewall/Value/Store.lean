import Firewall.Value.Merge

/-!
# Shared containers

A YAML document may name one node in several places, and then every place
holds the same container: a change made through one place shows in all of
them, and a container may even hold itself.  Layering configurations changes
containers in place, so the containers of a document are kept in a `Store`,
each under a number, and a member of a container is a `Slot`: a value held
in place, or the number of a container of the store.  Lists, ordered and
plain mappings always live in the store, tuples when a document makes them;
keys and the members of sets are values, since they cannot change.

`Doc.merge upper lower` lays `upper` over `lower` as `Value.mergeInto` does,
changing the containers of `lower` in place: each entry of `upper` whose
value is an ordered mapping is merged into the entry of `lower` under the
same key (a new empty ordered mapping, at the end, when there is none), and
every other entry is set in `lower`, which then holds the very container of
`upper`.  Only ordered mappings are walked, and no ordered mapping contains
itself through ordered mappings alone, so merging ends.

`Doc.read` gives the value of a document: a copy of each container wherever
it is met, except that a container that can reach itself shows as `cyclic
id body`, and inside `body`, where the container is met again on the way
down, as `again id`.

Main definitions:

- `Slot`, `Cell`, `Store`, `Doc`: containers and their members;
- `Store.place`: a value, its containers put in the store;
- `Doc.merge`: layering in place;
- `Doc.read`: the value of a document.
-/

namespace Firewall

/-- A member of a container: a value held in place, or a container of the
store, by its number. -/
inductive Slot where
  | val (v : Value)
  | ref (id : Nat)
deriving Repr, Inhabited, BEq

/-- A container of the store: a list, a tuple, an ordered or a plain mapping. -/
inductive Cell where
  | list (items : List Slot)
  | tuple (items : List Slot)
  | object (entries : List (Value × Slot))
  | dict (entries : List (Value × Slot))
deriving Repr, Inhabited

/-- The containers of documents, each under its number. -/
structure Store where
  cells : Array Cell := #[]
deriving Repr, Inhabited

/-- A value whose containers are in a store. -/
structure Doc where
  store : Store
  root : Slot
deriving Repr, Inhabited

namespace Slot

/-- The container numbers of members, moved up by `n`. -/
def shift (n : Nat) : Slot → Slot
  | .val v => .val v
  | .ref id => .ref (id + n)

end Slot

namespace Cell

/-- The name of a container's kind, as type errors show it. -/
def typeName : Cell → String
  | .list _ => Value.typeName (.list [])
  | .tuple _ => Value.typeName (.tuple [])
  | .object _ => Value.typeName (.object [])
  | .dict _ => Value.typeName (.dict [])

/-- The container numbers of a container's members, moved up by `n`. -/
def shift (n : Nat) : Cell → Cell
  | .list xs => .list (xs.map (Slot.shift n))
  | .tuple xs => .tuple (xs.map (Slot.shift n))
  | .object es => .object (es.map fun (k, x) => (k, x.shift n))
  | .dict es => .dict (es.map fun (k, x) => (k, x.shift n))

/-- The members of a container. -/
def members : Cell → List Slot
  | .list xs | .tuple xs => xs
  | .object es | .dict es => es.map (·.2)

/-- The containers a container holds directly. -/
def refs (c : Cell) : List Nat :=
  c.members.filterMap fun | .ref id => some id | .val _ => none

/-- Whether a container has members. -/
def nonEmpty (c : Cell) : Bool := !c.members.isEmpty

end Cell

/-- The entry under a key. -/
def lookupSlot (es : List (Value × Slot)) (k : Value) : Option Slot :=
  (es.find? (fun e => Value.sameKey e.1 k)).map (·.2)

/-- Set a key: an existing entry keeps its key and position and takes the
member, a new one goes last. -/
def setSlot (es : List (Value × Slot)) (k : Value) (x : Slot) : List (Value × Slot) :=
  if es.any (fun e => Value.sameKey e.1 k) then es.map (fun e => if Value.sameKey e.1 k then (e.1, x) else e)
  else es ++ [(k, x)]

/-- The entries of a list of pairs in document order: repeated keys keep
their first key and position and take the last member. -/
def slotEntries (pairs : List (Value × Slot)) : List (Value × Slot) :=
  pairs.foldl (fun acc e => setSlot acc e.1 e.2) []

namespace Store

/-- The number of containers. -/
def size (s : Store) : Nat := s.cells.size

/-- The container under a number; an empty list for a number with none. -/
def get (s : Store) (id : Nat) : Cell := s.cells.getD id (.list [])

/-- Add a container, under the next number. -/
def add (s : Store) (c : Cell) : Store × Nat := (⟨s.cells.push c⟩, s.cells.size)

/-- Replace the container under a number. -/
def put (s : Store) (id : Nat) (c : Cell) : Store := ⟨s.cells.setIfInBounds id c⟩

mutual
/-- Put the lists and mappings of a value in the store, as new containers. -/
def place (s : Store) : Value → Store × Slot
  | .list xs =>
    let (s, items) := placeAll s xs
    let (s, id) := s.add (.list items)
    (s, .ref id)
  | .object kvs =>
    let (s, es) := placeEntries s kvs
    let (s, id) := s.add (.object es)
    (s, .ref id)
  | .dict kvs =>
    let (s, es) := placeEntries s kvs
    let (s, id) := s.add (.dict es)
    (s, .ref id)
  | v => (s, .val v)

/-- `place` on each of a list of values. -/
def placeAll (s : Store) : List Value → Store × List Slot
  | [] => (s, [])
  | x :: xs =>
    let (s, a) := place s x
    let (s, rest) := placeAll s xs
    (s, a :: rest)

/-- `place` on the value of each of a list of entries. -/
def placeEntries (s : Store) : List (Value × Value) → Store × List (Value × Slot)
  | [] => (s, [])
  | (k, x) :: more =>
    let (s, a) := place s x
    let (s, rest) := placeEntries s more
    (s, (k, a) :: rest)
end

/-- The name of a member's kind, as type errors show it. -/
def typeName (s : Store) : Slot → String
  | .val v => v.typeName
  | .ref id => (s.get id).typeName

/-- Whether a member counts as a true condition. -/
def truthy (s : Store) : Slot → Bool
  | .val v => v.truthy
  | .ref id => (s.get id).nonEmpty

/-- Whether a member is an ordered mapping, which merging walks into. -/
def isOrdered (s : Store) : Slot → Bool
  | .ref id => match s.get id with
    | .object _ => true
    | _ => false
  | .val _ => false

/-- The entries of a mapping of either kind. -/
def items (s : Store) (x : Slot) : Except Fault (List (Value × Slot)) :=
  match x with
  | .ref id => match s.get id with
    | .object es | .dict es => .ok es
    | c => .error (.noAttribute c.typeName "items")
  | .val v => .error (.noAttribute v.typeName "items")

/-- The entry of a mapping under a key, made an empty ordered mapping, at the
end, when there is none. -/
def setdefault (s : Store) (target : Slot) (k : Value) : Except Fault (Store × Slot) :=
  let fresh := fun (es : List (Value × Slot)) (remake : List (Value × Slot) → Cell) (id : Nat) =>
    match lookupSlot es k with
    | some x => (s, x)
    | none =>
      let (s', made) := s.add (.object [])
      (s'.put id (remake (es ++ [(k, .ref made)])), .ref made)
  match target with
  | .ref id => match s.get id with
    | .object es => .ok (fresh es .object id)
    | .dict es => .ok (fresh es .dict id)
    | c => .error (.noAttribute c.typeName "setdefault")
  | .val v => .error (.noAttribute v.typeName "setdefault")

/-- Set an entry of a container: a mapping of either kind takes the key, a
list an integer index (from the end when negative) within its length. -/
def assign (s : Store) (target : Slot) (k : Value) (x : Slot) : Except Fault Store :=
  match target with
  | .ref id => match s.get id with
    | .object es => .ok (s.put id (.object (setSlot es k x)))
    | .dict es => .ok (s.put id (.dict (setSlot es k x)))
    | .list xs =>
      match Value.listIndex k with
      | some i =>
        let j := if i < 0 then i + xs.length else i
        if 0 ≤ j ∧ j < xs.length then .ok (s.put id (.list (xs.set j.toNat x))) else .error .assignRange
      | none => .error (.badIndex "list" k.typeName)
    | c => .error (.noItemAssignment c.typeName)
  | .val v => .error (.noItemAssignment v.typeName)

/-- Lay `upper` over `lower` within `fuel` levels of ordered mappings. -/
def mergeInto : Nat → Store → Slot → Slot → Except Fault Store
  | 0, _, _, _ => .error .recursion
  | fuel + 1, s, upper, lower => do
    let es ← s.items upper
    es.foldlM (fun s (k, x) =>
      if s.isOrdered x then do
        let (s, node) ← s.setdefault lower k
        mergeInto fuel s x node
      else s.assign lower k x) s

/-- The containers reachable from `frontier` in at most `fuel` steps, with
those already `seen`. -/
def reach (s : Store) : Nat → List Nat → List Nat → List Nat
  | 0, _, seen => seen
  | _ + 1, [], seen => seen
  | fuel + 1, frontier, seen =>
    let next := ((frontier.flatMap fun i => (s.get i).refs).filter (!seen.contains ·)).eraseDups
    reach s fuel next (seen ++ next)

/-- The containers reachable from a container through its members. -/
def reachable (s : Store) (id : Nat) : List Nat :=
  let first := (s.get id).refs.eraseDups
  s.reach (s.size + 1) first first

/-- Whether a container can reach itself. -/
def onCycle (s : Store) (id : Nat) : Bool := (s.reachable id).contains id

/-- The value of a member within `fuel` levels of containers, inside the
containers `path` that lie on cycles: the containers of `cyclic` that can
reach themselves. -/
def readSlot (s : Store) (cyclic : List Nat) : Nat → List Nat → Slot → Value
  | _, _, .val v => v
  | 0, _, .ref _ => .null
  | fuel + 1, path, .ref id =>
    if cyclic.contains id && path.contains id then .again id
    else
      let inner := if cyclic.contains id then id :: path else path
      let body := match s.get id with
        | .list xs => Value.list (xs.map (readSlot s cyclic fuel inner))
        | .tuple xs => .tuple (xs.map (readSlot s cyclic fuel inner))
        | .object es => .object (es.map fun (k, x) => (k, readSlot s cyclic fuel inner x))
        | .dict es => .dict (es.map fun (k, x) => (k, readSlot s cyclic fuel inner x))
      if cyclic.contains id then .cyclic id body else body

/-- Append the containers of another store, moving their numbers past this
store's; the member given is moved along. -/
def adjoin (s t : Store) (x : Slot) : Store × Slot :=
  (⟨s.cells ++ t.cells.map (Cell.shift s.size)⟩, x.shift s.size)

end Store

namespace Doc

/-- A value as a document of its own. -/
def ofValue (v : Value) : Doc :=
  let (s, x) := Store.place {} v
  ⟨s, x⟩

/-- The containers on a cycle that the root reaches.  When the root is held
by none of them and each of them by at most one member, they make a tree and
none is on a cycle. -/
def cyclicCells (d : Doc) : List Nat :=
  match d.root with
  | .val _ => []
  | .ref id =>
    let all := (id :: d.store.reachable id).eraseDups
    let held := all.flatMap fun i => (d.store.get i).refs
    if !held.contains id && held.length == held.eraseDups.length then []
    else all.filter d.store.onCycle

/-- The value of a document. -/
def read (d : Doc) : Value :=
  d.store.readSlot d.cyclicCells (d.store.size + 1) [] d.root

/-- Whether the root counts as a true condition. -/
def truthy (d : Doc) : Bool := d.store.truthy d.root

/-- The document itself when its root counts as true, else an empty plain mapping. -/
def orEmpty (d : Doc) : Doc :=
  if d.truthy then d
  else
    let (s, id) := d.store.add (.dict [])
    ⟨s, .ref id⟩

/-- Lay another document over this one, in place: the result has this
document's root. -/
def merge (upper lower : Doc) : Except Fault Doc := do
  let (s, x) := lower.store.adjoin upper.store upper.root
  let s ← s.mergeInto (s.size + 1) x lower.root
  pure ⟨s, lower.root⟩

end Doc

theorem Doc.read_ofValue_str (t : String) : (Doc.ofValue (.str t)).read = .str t := rfl

end Firewall
