import Firewall.Value.Basic
import Firewall.Fault

/-!
# Layering configurations

`Value.mergeInto upper lower` lays the configuration `upper` over `lower`:
each entry of `upper` whose value is an ordered mapping is merged,
recursively, into the entry of `lower` under the same key (created empty, at
the end, when `lower` has none); every other entry of `upper`, plain
mappings included, replaces or extends `lower`'s.  Keys of `lower` keep their
keys and positions and new keys follow in `upper`'s order.

Merging a non-empty mapping into a value that is not a mapping fails: a
scalar, text or tuple cannot take entries, and a list takes only integer
indices within its length (so an entry under `1` replaces the list's second
item).

This is layering on values, whose containers are never shared; `Doc.merge`
does the same on documents, changing shared containers in place.
-/

namespace Firewall
namespace Value

/-- The index a key gives into a list: integers, and booleans as `0` and `1`. -/
def listIndex : Value → Option Int
  | .int i => some i
  | .bool b => some (if b then 1 else 0)
  | _ => none

/-- Set an entry of a value that must take entries: a mapping of either kind
takes the key, a list an integer index (from the end when negative) within
its length. -/
def assign (target : Value) (k v : Value) : Except Fault Value :=
  match target with
  | .object kvs => .ok (.object (setKey kvs k v))
  | .dict kvs => .ok (.dict (setKey kvs k v))
  | .list xs =>
    match listIndex k with
    | some i =>
      let j := if i < 0 then i + xs.length else i
      if 0 ≤ j ∧ j < xs.length then .ok (.list (xs.set j.toNat v)) else .error .assignRange
    | none => .error (.badIndex "list" k.typeName)
  | t => .error (.noItemAssignment t.typeName)

mutual
/-- Lay the entries of a mapping over a value. -/
def mergeEntries : List (Value × Value) → Value → Except Fault Value
  | [], lower => .ok lower
  | (k, .object inner) :: rest, lower =>
    match lower with
    | .object kvs => do
      let merged ← mergeEntries inner ((lookup kvs k).getD (.object []))
      mergeEntries rest (.object (setKey kvs k merged))
    | .dict kvs => do
      let merged ← mergeEntries inner ((lookup kvs k).getD (.object []))
      mergeEntries rest (.dict (setKey kvs k merged))
    | t => .error (.noAttribute t.typeName "setdefault")
  | (k, v) :: rest, lower => do
    mergeEntries rest (← assign lower k v)
end

/-- Lay `upper` over `lower`; `upper` must be a mapping. -/
def mergeInto (upper lower : Value) : Except Fault Value :=
  match upper.mapping? with
  | some kvs => mergeEntries kvs lower
  | none => .error (.noAttribute upper.typeName "items")

@[simp] theorem mergeEntries_nil (lower : Value) : mergeEntries [] lower = .ok lower := by
  simp [mergeEntries]

end Value
end Firewall
