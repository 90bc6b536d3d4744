import Firewall.Value.Basic
import Firewall.Fault

/-!
# Reading values

The operations by which rule generation reads a configuration, each with the
failure it has on a value of the wrong kind:

- walking through a value (`Value.members`): a list, tuple or set gives its
  items, a text its characters, a byte string its bytes as integers, a
  mapping its keys; any other kind cannot be walked through;
- the entries and keys of a mapping (`Value.entries`, `Value.keyList`);
- an entry with a fallback (`Value.getD`) and an entry that must exist
  (`Value.child`).

The rules look entries up by text keys only, so these take a text.  A
container that contains itself is read through `Value.unfold`.
-/

namespace Firewall
namespace Value

/-- The members met when walking through a value: items, characters, bytes or keys. -/
def members (v : Value) : Except Fault (List Value) :=
  match v.unfold with
  | .list xs | .tuple xs | .set xs => .ok xs
  | .str s => .ok (s.toList.map fun c => .str c.toString)
  | .bytes bs => .ok (bs.map fun b => .int b.toNat)
  | .object kvs | .dict kvs => .ok (kvs.map (·.1))
  | _ => .error (.notIterable v.typeName)

/-- The entries of a mapping. -/
def entries (v : Value) : Except Fault (List (Value × Value)) :=
  match v.mapping? with
  | some kvs => .ok kvs
  | none => .error (.noAttribute v.typeName "items")

/-- The keys of a mapping. -/
def keyList (v : Value) : Except Fault (List Value) :=
  match v.mapping? with
  | some kvs => .ok (kvs.map (·.1))
  | none => .error (.noAttribute v.typeName "keys")

/-- The entry under a key, or the fallback when there is none. -/
def getD (v : Value) (k : String) (fallback : Value) : Except Fault Value :=
  match v.mapping? with
  | some kvs => .ok ((lookup kvs (.str k)).getD fallback)
  | none => .error (.noAttribute v.typeName "get")

/-- The entry under a key, which must exist; sequences cannot be indexed by
a text, other scalars cannot be indexed at all. -/
def child (v : Value) (k : String) : Except Fault Value :=
  match v.unfold with
  | .object kvs | .dict kvs =>
    match lookup kvs (.str k) with
    | some x => .ok x
    | none => .error (.missingKey (Text.quote k))
  | .list _ => .error (.badIndex "list" "str")
  | .tuple _ => .error (.badIndex "tuple" "str")
  | .bytes _ => .error (.badIndex "byte" "str")
  | .str _ => .error (.textIndex "str")
  | _ => .error (.notSubscriptable v.typeName)

/-- A path of keys, each of which must exist. -/
def path (v : Value) : List String → Except Fault Value
  | [] => .ok v
  | k :: ks => do path (← v.child k) ks

/-- Whether a mapping has an entry under the key. -/
def hasKey (v : Value) (k : String) : Bool :=
  match v.mapping? with
  | some kvs => kvs.any (sameKey ·.1 (.str k))
  | none => false

/-- A list as it is, any other value as a list of one. -/
def asList (v : Value) : List Value :=
  match v.unfold with
  | .list xs => xs
  | _ => [v]

/-- The two members of a value that is read as a pair. -/
def pair (v : Value) : Except Fault (Value × Value) :=
  match v.members with
  | .ok [a, b] => .ok (a, b)
  | .ok ms => if ms.length < 2 then .error (.tooFewValues ms.length) else .error .tooManyValues
  | .error _ => .error (.notUnpackable v.typeName)

/-- The text a value gives as the argument of a format with one placeholder:
a tuple stands for its items, of which there must be one. -/
def formatArg (v : Value) : Except Fault String :=
  match v.unfold with
  | .tuple [x] => .ok x.text
  | .tuple [] => .error (.formatArguments false)
  | .tuple _ => .error (.formatArguments true)
  | _ => .ok v.text

@[simp] theorem members_list (xs : List Value) : (Value.list xs).members = .ok xs := rfl

@[simp] theorem asList_str (s : String) : (Value.str s).asList = [.str s] := rfl

@[simp] theorem child_object (kvs : List (Value × Value)) (k : String) :
    (Value.object kvs).child k = match lookup kvs (.str k) with
      | some x => .ok x
      | none => .error (.missingKey (Text.quote k)) := rfl

end Value
end Firewall
