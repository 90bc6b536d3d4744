import Mathlib
import Firewall.Proofs.Zone.Basic

/-!
# Keyed zone configurations

A configuration is read from mappings.  Where the zone rules read them, a
mapping whose keys are one key twice is not a mapping that a configuration
file can give.  `Keyed` says so, level by level, of what the zone rules read:
the zones, and under a zone's rules its tables, their chains and the
destinations under `to`.  It asks two more things of keys, which every
configuration whose zones are named by texts meets: each zone's key is one key
with itself, and a key under a zone's rules that has a position among the zones
is exact (`ExactKey`: null, a boolean, an integer, a text, bytes or a named
value).  It is decidable, so it can be checked of a given configuration.

Main statements: in a keyed configuration a zone's key has the zone's own
position (`Keyed.index_key`), so two zones with one name are one key
(`Keyed.sameKey_of_zone_name`); and two values with one zone name are one key
when each is exact or names no zone by position (`sameKey_of_name`), whatever
the zone's key is, since the keys one key with a zone's key that are exact all
stand for one thing.
-/

namespace Firewall
namespace Zone

section Keys

/-- The keys of a list of entries differ pairwise. -/
def DistinctKeys (kvs : List (Value × Value)) : Prop :=
  kvs.Pairwise fun a b => Value.sameKey a.1 b.1 = false

instance (kvs : List (Value × Value)) : Decidable (DistinctKeys kvs) :=
  inferInstanceAs (Decidable (List.Pairwise _ kvs))

/-- Down to depth `d`, a value that is a mapping has keys that differ pairwise,
and so have the values of its entries. -/
def KeyedTo : Nat → Value → Prop
  | 0, _ => True
  | d + 1, v => ∀ kvs ∈ v.entries.toOption, DistinctKeys kvs ∧ ∀ e ∈ kvs, KeyedTo d e.2

instance instDecidableKeyedTo : (d : Nat) → (v : Value) → Decidable (KeyedTo d v)
  | 0, _ => instDecidableTrue
  | d + 1, v =>
    have := instDecidableKeyedTo d
    inferInstanceAs
      (Decidable (∀ kvs ∈ v.entries.toOption, DistinctKeys kvs ∧ ∀ e ∈ kvs, KeyedTo d e.2))

/-- A key that is one key only with keys that stand for the same: null, a
boolean, an integer, a text, bytes or a named value.  Doubles, complex numbers,
stamps and tuples compare through floating-point or clock arithmetic, or item
by item, and are left out. -/
def ExactKey : Value → Bool
  | .null | .bool _ | .int _ | .str _ | .bytes _ | .named _ _ => true
  | _ => false

/-- Down to depth `d`, a key of a mapping that has a position among the zones
of `tree` is exact, and so are those of the values of its entries. -/
def ExactNamesTo (tree : Value) : Nat → Value → Prop
  | 0, _ => True
  | d + 1, v => ∀ kvs ∈ v.entries.toOption, ∀ e ∈ kvs,
      ((index tree e.1).toOption.isSome → ExactKey e.1 = true) ∧ ExactNamesTo tree d e.2

instance instDecidableExactNamesTo (tree : Value) :
    (d : Nat) → (v : Value) → Decidable (ExactNamesTo tree d v)
  | 0, _ => instDecidableTrue
  | d + 1, v =>
    have := instDecidableExactNamesTo tree d
    inferInstanceAs (Decidable (∀ kvs ∈ v.entries.toOption, ∀ e ∈ kvs,
      ((index tree e.1).toOption.isSome → ExactKey e.1 = true) ∧ ExactNamesTo tree d e.2))

/-- A configuration whose mappings, where the zone rules read them, have keys
that differ pairwise: the zones, and under a zone's rules its tables, their
chains and the destinations under `to`; whose zones' keys are each one key with
itself; and in which a key under a zone's rules that has a position among the
zones is exact. -/
def Keyed (tree : Value) : Prop :=
  ∀ zones ∈ (tree.getD "zones" (.dict [])).toOption, ∀ kvs ∈ zones.entries.toOption,
    DistinctKeys kvs ∧ ∀ e ∈ kvs, Value.sameKey e.1 e.1 = true ∧
      ∀ rules ∈ (e.2.getD "rules" (.dict [])).toOption, KeyedTo 3 rules ∧ ExactNamesTo tree 3 rules

instance (tree : Value) : Decidable (Keyed tree) :=
  inferInstanceAs (Decidable (∀ zones ∈ (tree.getD "zones" (.dict [])).toOption,
    ∀ kvs ∈ zones.entries.toOption, DistinctKeys kvs ∧ ∀ e ∈ kvs, Value.sameKey e.1 e.1 = true ∧
      ∀ rules ∈ (e.2.getD "rules" (.dict [])).toOption,
        KeyedTo 3 rules ∧ ExactNamesTo tree 3 rules))

-- Zones keyed by integers, with a destination that names one by its integer, are keyed.
example : Keyed (.dict [(.str "zones", .dict [(.int 1, .dict [(.str "rules", .dict [
    (.str "filter", .dict [(.str "to", .dict [(.int 1, .list [])])])])])])]) := by
  decide +kernel

variable {tree : Value}

theorem KeyedTo.entries {d : Nat} {v : Value} {kvs : List (Value × Value)}
    (h : KeyedTo (d + 1) v) (hv : v.entries = .ok kvs) :
    DistinctKeys kvs ∧ ∀ e ∈ kvs, KeyedTo d e.2 :=
  h kvs (by rw [hv]; rfl)

theorem ExactNamesTo.entries {d : Nat} {v : Value} {kvs : List (Value × Value)}
    (h : ExactNamesTo tree (d + 1) v) (hv : v.entries = .ok kvs) :
    ∀ e ∈ kvs, ((index tree e.1).toOption.isSome → ExactKey e.1 = true) ∧
      ExactNamesTo tree d e.2 :=
  h kvs (by rw [hv]; rfl)

theorem Keyed.zones (hk : Keyed tree) {zones : Value} {kvs : List (Value × Value)}
    (hz : tree.getD "zones" (.dict []) = .ok zones) (he : zones.entries = .ok kvs) :
    DistinctKeys kvs ∧ ∀ e ∈ kvs, Value.sameKey e.1 e.1 = true ∧
      ∀ rules, e.2.getD "rules" (.dict []) = .ok rules →
        KeyedTo 3 rules ∧ ExactNamesTo tree 3 rules := by
  obtain ⟨hd, hall⟩ := hk zones (by rw [hz]; rfl) kvs (by rw [he]; rfl)
  refine ⟨hd, fun e he' => ⟨(hall e he').1, fun rules hr => ?_⟩⟩
  exact (hall e he').2 rules (by rw [hr]; rfl)

/-- A whole number is one key with a number in one way only. -/
theorem Number.same_whole_inj {x : Number} {n m : Int} (hn : Number.same x (.whole n) = true)
    (hm : Number.same x (.whole m) = true) : n = m := by
  cases x with
  | whole a => simp_all [Number.same]
  | double b =>
    simp only [Number.same, Number.wholeIs, beq_iff_eq] at hn hm
    exact Option.some.inj (hn.symm.trans hm)
  | pair r i =>
    simp only [Number.same, Number.realIs, Number.wholeIs, Bool.and_eq_true, beq_iff_eq] at hn hm
    exact Option.some.inj (hn.2.symm.trans hm.2)

/-- Booleans and integers standing for one whole number are one key. -/
theorem sameKey_of_whole {a b : Value} {n : Int} (ha : a.number? = some (.whole n))
    (hb : b.number? = some (.whole n)) : Value.sameKey a b = true := by
  cases a <;> cases b <;> simp_all [Value.number?, Value.sameKey, Number.same]

/-- An exact key that is one key with `k` is `k` itself when it is no number,
and otherwise a whole number that `k`, a number, is one key with. -/
theorem sameKey_exact_cases {k a : Value} (ha : ExactKey a = true)
    (h : Value.sameKey k a = true) :
    (a.number? = none ∧ k = a) ∨
      ∃ x n, k.number? = some x ∧ a.number? = some (.whole n) ∧ Number.same x (.whole n) = true := by
  cases a with
  | bool b =>
    refine .inr ?_
    cases k <;> simp_all [Value.sameKey, Value.number?]
  | int n =>
    refine .inr ?_
    cases k <;> simp_all [Value.sameKey, Value.number?]
  | null | str _ | bytes _ | named _ _ =>
    refine .inl ⟨rfl, ?_⟩
    cases k <;> simp_all [Value.sameKey, Value.number?]
  | _ => simp [ExactKey] at ha

/-- Two exact keys that are one key with a third are one key: the keys one key
with any value that are exact all stand for one thing. -/
theorem sameKey_of_exact {k a b : Value} (ha : ExactKey a = true) (hb : ExactKey b = true)
    (hka : Value.sameKey k a = true) (hkb : Value.sameKey k b = true) : Value.sameKey a b = true := by
  rcases sameKey_exact_cases ha hka with ⟨-, rfl⟩ | ⟨x, n, hx, han, hxn⟩
  · exact hkb
  rcases sameKey_exact_cases hb hkb with ⟨hbn, rfl⟩ | ⟨y, m, hy, hbm, hym⟩
  · rw [hbn] at hx
    cases hx
  · rw [hx, Option.some.injEq] at hy
    subst hy
    rw [Number.same_whole_inj hym hxn] at hbm
    exact sameKey_of_whole han hbm

theorem keyList_of_entries {v : Value} {kvs : List (Value × Value)} (h : v.entries = .ok kvs) :
    v.keyList = .ok (kvs.map (·.1)) := by
  unfold Value.entries at h
  unfold Value.keyList
  cases hm : v.mapping? with
  | none => rw [hm] at h; cases h
  | some kvs' => rw [hm] at h; cases h; rfl

end Keys

section Names

variable {tree a b : Value} {n : String}

/-- The numbered names start with `z`, the special ones do not. -/
theorem numbered_ne_special (hs : n = localZone ∨ n = defaultZone) (i : Nat) :
    n ≠ "zone" ++ toString i := by
  intro h
  have := congrArg (fun s : String => s.toList.head?) h
  rcases hs with rfl | rfl <;> simp [localZone, defaultZone] at this

theorem numbered_inj {i j : Nat} (h : "zone" ++ toString i = "zone" ++ toString j) : i = j := by
  rw [String.append_right_inj, Nat.toString_eq_repr, Nat.toString_eq_repr] at h
  exact Nat.repr_inj.mp h

/-- Two values with one zone name are one special zone's text, or have one
position among the zones. -/
theorem name_eq_cases (ha : name tree a = .ok n) (hb : name tree b = .ok n) :
    (a = .str n ∧ b = .str n) ∨ ∃ i, index tree a = .ok i ∧ index tree b = .ok i := by
  rcases name_cases ha with ⟨rfl, hs⟩ | ⟨i, hi, rfl⟩
  · rcases name_cases hb with ⟨rfl, -⟩ | ⟨j, -, hj⟩
    · exact .inl ⟨rfl, rfl⟩
    · exact absurd hj (numbered_ne_special hs j)
  · rcases name_cases hb with ⟨-, hs⟩ | ⟨j, hj, hij⟩
    · exact absurd rfl (numbered_ne_special hs i)
    · obtain rfl := numbered_inj hij
      exact .inr ⟨i, hi, hj⟩

/-- In a keyed configuration a zone's key has the zone's own position: no
earlier key is one key with it, as the keys differ pairwise, and it is one key
with itself. -/
theorem Keyed.index_key (hk : Keyed tree) {zones : Value} {kvs : List (Value × Value)}
    (hz : tree.getD "zones" (.dict []) = .ok zones) (he : zones.entries = .ok kvs)
    {p : Nat} (hp : p < kvs.length) : index tree kvs[p].1 = .ok p := by
  obtain ⟨hd, hkz⟩ := hk.zones hz he
  have hfind : (kvs.map (·.1)).findIdx? (fun k => Value.sameKey k kvs[p].1) = some p := by
    rw [List.findIdx?_eq_some_iff_getElem]
    refine ⟨by simpa using hp, by simpa using (hkz _ (List.getElem_mem hp)).1, fun j hj => ?_⟩
    have hjp : Value.sameKey kvs[j].1 kvs[p].1 = false :=
      List.pairwise_iff_getElem.mp hd j p (hj.trans hp) hp hj
    simpa using hjp
  simp only [index, hz, keyList_of_entries he, bind, Except.bind, hfind, pure, Except.pure]

/-- In a keyed configuration two zones with one name are one key: a special
zone is its name, and a numbered one is the zone at its position. -/
theorem Keyed.sameKey_of_zone_name (hk : Keyed tree) {zones : Value} {kvs : List (Value × Value)}
    (hz : tree.getD "zones" (.dict []) = .ok zones) (he : zones.entries = .ok kvs)
    {x y : Value × Value} (hx : x ∈ kvs) (hy : y ∈ kvs) (hnx : name tree x.1 = .ok n)
    (hny : name tree y.1 = .ok n) : Value.sameKey x.1 y.1 = true := by
  obtain ⟨p, hp, rfl⟩ := List.getElem_of_mem hx
  obtain ⟨q, hq, rfl⟩ := List.getElem_of_mem hy
  rcases name_eq_cases hnx hny with ⟨hxs, hys⟩ | ⟨i, hi, hj⟩
  · rw [hxs, hys]
    simp
  · -- both zones sit at position `i`
    rw [hk.index_key hz he hp, Except.ok.injEq] at hi
    rw [hk.index_key hz he hq, Except.ok.injEq] at hj
    subst hi hj
    exact ((hk.zones hz he).2 _ (List.getElem_mem hp)).1

/-- Two values with one zone name are one key, when each that names a zone by
position is exact: a special zone is its name, and a numbered one is one key
with the zone's key. -/
theorem sameKey_of_name (ha : name tree a = .ok n) (hb : name tree b = .ok n)
    (hxa : (index tree a).toOption.isSome → ExactKey a = true)
    (hxb : (index tree b).toOption.isSome → ExactKey b = true) : Value.sameKey a b = true := by
  rcases name_eq_cases ha hb with ⟨rfl, rfl⟩ | ⟨i, hi, hj⟩
  · simp
  · obtain ⟨zones, kvs, hz, he, hlt, hsa⟩ := index_ok hi
    obtain ⟨zones', kvs', hz', he', hlt', hsb⟩ := index_ok hj
    rw [hz] at hz'
    cases hz'
    rw [he] at he'
    cases he'
    exact sameKey_of_exact (hxa (by rw [hi]; rfl)) (hxb (by rw [hj]; rfl)) hsa hsb

end Names

end Zone
end Firewall
