import Firewall.Value.Basic

/-!
# Hashes of keys and the order of sets

A set keeps its members in a hash table and lists them in the order of the
table's slots, not in the order they were added.  This module gives the
hashes of the values whose hash does not change from one run to the next,
and the slot order of a set built from distinct members.

**Hashes.**  Numbers hash by their value modulo the prime `2^61 - 1`, so that
equal numbers of different kinds hash alike: an integer by its magnitude with
its sign, a finite double `k·2^q` as `k·2^(q mod 61)`, the infinities as
`±314159`, a complex number as the hash of its real part plus `1000003`
times that of its imaginary part, a boolean as `0` or `1`.  A tuple mixes
the hashes of its items with the xxHash primes.  A hash of `-1` is taken as
`-2`.  Texts, byte strings, timestamps, null, not-a-number and named objects
hash differently in every run; they have no hash here.

**Tables.**  A table starts with eight slots.  A member goes into the first
free slot of a probe sequence: from its hash modulo the size, ten slots in a
row while they fit, then on to slot `5·i + 1 + perturb`, where `perturb` is
the hash shifted right by five more bits at each step.  Adding the members of
a mapping first grows the table when five times the count would reach three
times the last slot index, and any insertion that fills that far grows it
again, to the smallest power of two above four times the count, reinserting
the members in slot order.

`Value.setOrder` lists distinct members in slot order when all of them have
a hash here, and as they are given otherwise.
-/

namespace Firewall
namespace Value

/-- The prime modulus of number hashes. -/
def hashModulus : Nat := Nat.pow 2 61 - 1

/-- The hash of a signed magnitude, as a machine word: `-1` becomes `-2`. -/
def signedHash (negative : Bool) (magnitude : Nat) : UInt64 :=
  if !negative then magnitude.toUInt64
  else if magnitude == 1 then (0 : UInt64) - 2
  else (0 : UInt64) - magnitude.toUInt64

/-- The hash of an integer. -/
def intHash (n : Int) : UInt64 := signedHash (n < 0) (n.natAbs % hashModulus)

/-- The hash of a double, when it is a number: `k·2^(q mod 61)` modulo the
prime for the magnitude `k·2^q`. -/
def floatHash (bits : UInt64) : Option UInt64 :=
  let e := ((bits >>> 52) &&& 0x7FF).toNat
  let f := (bits &&& 0xFFFFFFFFFFFFF).toNat
  let negative := (bits >>> 63) == 1
  if e == 0x7FF then
    if f == 0 then some (if negative then (0 : UInt64) - 314159 else 314159) else none
  else
    let k := if e == 0 then f else f + Nat.pow 2 52
    let q : Int := if e == 0 then -1074 else (e : Int) - 1075
    let shift := (q % 61).toNat
    some (signedHash (negative && k != 0) (k * Nat.pow 2 shift % hashModulus))

/-- The hash of a complex number by the hashes of its parts. -/
def complexHash (re im : UInt64) : Option UInt64 := do
  let h := (← floatHash re) + 1000003 * (← floatHash im)
  pure (if h == (0 : UInt64) - 1 then (0 : UInt64) - 2 else h)

/-- The first xxHash prime. -/
def xxPrime1 : UInt64 := 11400714785074694791
/-- The second xxHash prime. -/
def xxPrime2 : UInt64 := 14029467366897019727
/-- The fifth xxHash prime. -/
def xxPrime5 : UInt64 := 2870177450012600261

/-- One round of mixing an item's hash into a tuple's. -/
def tupleRound (acc lane : UInt64) : UInt64 :=
  let a := acc + lane * xxPrime2
  ((a <<< 31) ||| (a >>> 33)) * xxPrime1

mutual
/-- The hash of a value, when it is the same in every run. -/
def hash? : Value → Option UInt64
  | .bool b => some (if b then 1 else 0)
  | .int n => some (intHash n)
  | .float bits => floatHash bits
  | .complex re im => complexHash re im
  | .tuple items => do
    let acc ← itemsHash? xxPrime5 items
    let h := acc + (items.length.toUInt64 ^^^ (xxPrime5 ^^^ 3527539))
    pure (if h == (0 : UInt64) - 1 then 1546275796 else h)
  | _ => none

/-- Mix the hashes of items into a tuple's. -/
def itemsHash? (acc : UInt64) : List Value → Option UInt64
  | [] => some acc
  | x :: rest => do itemsHash? (tupleRound acc (← hash? x)) rest
end

/-- A hash table of distinct members: its slots, each empty or holding a
member and its hash, and how many slots are filled. -/
structure Table where
  slots : Array (Option (Value × UInt64))
  filled : Nat

/-- The empty table of eight slots. -/
def Table.empty : Table := ⟨Array.replicate 8 none, 0⟩

/-- The index of the table's last slot. -/
def Table.mask (t : Table) : Nat := t.slots.size - 1

/-- The first free slot of a window starting at `i`, ten slots long when it
fits in the table and one slot otherwise. -/
def Table.freeIn (t : Table) (i : Nat) : Option Nat :=
  let width := if i + 9 ≤ t.mask then 10 else 1
  (List.range width).findSome? fun j =>
    match t.slots[i + j]? with
    | some none => some (i + j)
    | _ => none

/-- The free slot probed from slot `i` with the perturbation left, searching
at most `fuel` windows. -/
def Table.probe (t : Table) : Nat → Nat → UInt64 → Option Nat
  | 0, _, _ => none
  | fuel + 1, i, perturb =>
    match t.freeIn i with
    | some slot => some slot
    | none =>
      let perturb := perturb >>> 5
      let next := ((i.toUInt64 * 5 + 1 + perturb).toNat) % (t.mask + 1)
      Table.probe t fuel next perturb

/-- Place a member in its free slot, if one is found. -/
def Table.place (t : Table) (v : Value) (hash : UInt64) : Option Table := do
  let slot ← t.probe (16 * t.slots.size) (hash.toNat % (t.mask + 1)) hash
  pure ⟨t.slots.set! slot (some (v, hash)), t.filled + 1⟩

/-- The members of a table in slot order. -/
def Table.members (t : Table) : List (Value × UInt64) := t.slots.toList.filterMap id

/-- The smallest table size, a power of two from eight on, above `n`. -/
def tableSize (n : Nat) : Nat :=
  let rec grow : Nat → Nat → Nat
    | 0, size => size
    | fuel + 1, size => if size ≤ n then grow fuel (2 * size) else size
  grow (n + 1) 8

/-- The table resized to more than `minUsed` slots, its members reinserted in slot order. -/
def Table.resize (t : Table) (minUsed : Nat) : Option Table :=
  t.members.foldlM (fun acc (v, h) => acc.place v h)
    ⟨Array.replicate (tableSize minUsed) none, 0⟩

/-- Add a member that the table does not hold, growing the table when it
fills up. -/
def Table.add (t : Table) (v : Value) (hash : UInt64) : Option Table := do
  let t ← t.place v hash
  if t.filled * 5 < t.mask * 3 then pure t else t.resize (t.filled * 4)

/-- The table of distinct members with their hashes, added in order to an
empty set as the members of a mapping. -/
def Table.ofMembers (ms : List (Value × UInt64)) : Option Table := do
  let start := Table.empty
  let start ← if (start.filled + ms.length) * 5 ≥ start.mask * 3 then start.resize (2 * ms.length)
    else pure start
  ms.foldlM (fun acc (v, h) => acc.add v h) start

/-- Distinct members in the order of a set holding them: slot order when all
have a hash here, the given order otherwise. -/
def setOrder (items : List Value) : List Value :=
  match items.mapM fun v => (hash? v).map (v, ·) with
  | none => items
  | some hashed =>
    match Table.ofMembers hashed with
    | some t => t.members.map (·.1)
    | none => items

@[simp] theorem intHash_zero : intHash 0 = 0 := by decide

theorem setOrder_nil : setOrder [] = [] := by
  simp [setOrder, Table.ofMembers, Table.empty, Table.mask, Table.members]

end Value
end Firewall
