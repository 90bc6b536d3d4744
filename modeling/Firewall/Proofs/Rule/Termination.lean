import Firewall.Proofs.Rule.Scan
import Firewall.Proofs.Rule.Family
import Mathlib

/-!
# Termination of expansion

Expansion fills the leftmost reference of a rule and reads the result again
from its start, so nothing in its recursion gets smaller on its face; only the
nesting limit stops it.  Whether it would stop without the limit depends on
the values.

A name refers to another when one of its values holds a reference to it
(`Refers`).  When no name refers to itself through others (`Acyclic`), every
name has a depth (`exists_depth`): more than the depths of the names read in
any one of its values together.  When the values are also `Sealed`, filling a
reference with a value puts the value's names in its place and nothing else
(`keysOf_fill`), so the total depth of the names in the text falls at every
level of the recursion.  Expansion with more nesting than that total does not
run out of it (`expandObjectsWith_within`, `expandZonesWith_within`), and with
still more it gives the same run (`expandObjectsWith_succ`,
`expandZonesWith_succ`).

Main statement: `expansion_terminates`.  No cycle alone is not enough
(`expansion_loops_without_cycle`): the object values `$${b}` and `{a}` refer to
`b` only, yet `${a}` becomes `$${b}`, whose `${b}` becomes `${a}` again.
-/

namespace Firewall
namespace Rule

section Faults

/-! Looking a name up, listing a zone's interfaces and reading a value as a
network fail in their own ways, never by running out of nesting. -/

theorem child_ne_recursion (v : Value) (k : String) : v.child k ≠ .error .recursion := by
  unfold Value.child
  repeat' split
  all_goals simp

theorem path_ne_recursion : ∀ (v : Value) (ks : List String), v.path ks ≠ .error .recursion
  | v, [] => by simp [Value.path]
  | v, k :: ks => by
    cases h : v.child k with
    | error e =>
      have he : e ≠ .recursion := fun he => child_ne_recursion v k (he ▸ h)
      simpa [Value.path, h, bind, Except.bind] using he
    | ok c => simpa [Value.path, h, bind, Except.bind] using path_ne_recursion c ks

theorem members_ne_recursion (v : Value) : v.members ≠ .error .recursion := by
  unfold Value.members
  split <;> simp

theorem maskPrefix_ne_recursion (fam : Address.Family) (m : String) :
    Address.maskPrefix fam m ≠ .error .recursion := by
  unfold Address.maskPrefix
  by_cases hd : (Address.allDigits m && decide (Address.digitValue m ≤ fam.width)) = true
  · simp [hd]
  · rw [if_neg hd]
    cases fam with
    | v6 => simp
    | v4 =>
      dsimp only
      repeat' split
      all_goals simp

theorem maskOfValue_ne_recursion (fam : Address.Family) (m : Value) :
    Address.maskOfValue fam m ≠ .error .recursion := by
  unfold Address.maskOfValue
  split
  · split <;> simp
  · simp
  · exact maskPrefix_ne_recursion fam _
  · split <;> simp

theorem networkParts_ne_recursion (v : Value) : Address.networkParts v ≠ .error .recursion := by
  unfold Address.networkParts
  repeat' split
  all_goals simp

theorem classify_ne_recursion (fam : Address.Family) (v : Value) :
    Address.classify fam v ≠ .error .recursion := by
  unfold Address.classify Address.Network.ofValue
  cases hp : Address.networkParts v with
  | error e =>
    have he := networkParts_ne_recursion v
    rw [hp] at he
    simpa [bind, Except.bind, Except.map] using he
  | ok parts =>
    rcases parts with _ | ⟨a, m⟩
    · simp [bind, Except.bind, Except.map, pure, Except.pure]
    · cases haddr : Address.addressOf fam a with
      | none => simp [bind, Except.bind, Except.map, pure, Except.pure, haddr]
      | some nz =>
        -- the mask read, then the check for bits below the prefix
        rcases m with _ | mask
        · simp [bind, Except.bind, Except.map, pure, Except.pure, haddr, Nat.mod_one]
        · cases hm : Address.maskOfValue fam mask with
          | error e =>
            have he := maskOfValue_ne_recursion fam mask
            rw [hm] at he
            simpa [bind, Except.bind, Except.map, haddr, hm] using he
          | ok p =>
            by_cases hb : nz.1 % 2 ^ (fam.width - p) = 0
            · simp [bind, Except.bind, Except.map, pure, Except.pure, haddr, hm, hb]
            · simp [bind, Except.bind, Except.map, haddr, hm, hb, throw, throwThe,
                MonadExceptOf.throw]

theorem restrictFamily_ne_recursion (v : Value) (rule : String) :
    restrictFamily v rule ≠ .error .recursion := fun h => by
  obtain ⟨fam, hfam⟩ := classify_error_of_restrictFamily h
  exact classify_ne_recursion fam v hfam

/-- Restricting a rule to a value's family keeps it as it is or puts the
family's option in front. -/
theorem restrictFamily_some {v : Value} {rule u : String}
    (h : restrictFamily v rule = .ok (some u)) : u = rule ∨ u = "-4 " ++ rule ∨ u = "-6 " ++ rule := by
  unfold restrictFamily at h
  -- the rule is kept, dropped, or given the option of the value's family
  rcases h4 : Address.classify .v4 v with e | _ | _ <;>
    rcases h6 : Address.classify .v6 v with e' | _ | _ <;>
    by_cases hm4 : markedV4 rule <;> by_cases hm6 : markedV6 rule <;>
    simp_all [bind, Except.bind, pure, Except.pure]

end Faults

section Runs

variable {α β : Type}

/-- Producers that agree on every item, up to the first that fails with a fault
other than `e`, make the same run. -/
theorem feed_eq_of_fault_ne {f g : α → Run β} {e : Fault} :
    ∀ {xs : List α}, (∀ x ∈ xs, (f x).fault ≠ some e → g x = f x) →
      (Run.feed f xs).fault ≠ some e → Run.feed g xs = Run.feed f xs
  | [], _, _ => rfl
  | x :: xs, hagree, hne => by
    cases hx : (f x).fault with
    | some e' =>
      -- the run stops at `x`, with its fault
      rw [Run.feed_cons_of_fault xs hx] at hne ⊢
      have hgx := hagree x List.mem_cons_self (by rw [hx]; exact hne)
      rw [Run.feed_cons_of_fault xs (hgx ▸ hx), hgx]
    | none =>
      have hgx := hagree x List.mem_cons_self (by simp [hx])
      have hrest : (Run.feed f xs).fault ≠ some e := by simpa [Run.feed, hx] using hne
      simp only [Run.feed, hgx, hx,
        feed_eq_of_fault_ne (fun y hy => hagree y (List.mem_cons_of_mem _ hy)) hrest]

/-- A run that no more nesting changes once it does not run out is the same from
then on. -/
theorem stable_of_succ {F : Nat → Run α} {e : Fault}
    (hsucc : ∀ n, (F n).fault ≠ some e → F (n + 1) = F n) {N : Nat} (hN : (F N).fault ≠ some e) :
    ∀ fuel, N ≤ fuel → F fuel = F N := by
  intro fuel hle
  induction fuel, hle using Nat.le_induction with
  | base => rfl
  | succ n _ ih => rw [hsucc n (ih ▸ hN), ih]

theorem feed_singleton (f : α → Run β) (x : α) : Run.feed f [x] = f x := by
  rcases h : f x with ⟨items, fault⟩
  cases fault <;> simp [Run.feed, h]

end Runs

section Depth

variable (σ : Char) (vals : String → List String)

/-- The name `n` refers to `m` when one of its values holds `σ{m}`. -/
def Refers (n m : String) : Prop :=
  ∃ v ∈ vals n, (σ :: '{' :: m.toList ++ ['}']) <:+: v.toList

/-- No name refers to itself through other names. -/
def Acyclic : Prop := ∀ n, ¬ Relation.TransGen (Refers σ vals) n n

/-- The name `m` is read in a value of `n`. -/
def ReadIn (m n : String) : Prop := ∃ v ∈ vals n, m ∈ keysOf σ v

variable {σ vals}

/-- A rank that every reference lowers rules out cycles. -/
theorem acyclic_of_rank (rank : String → Nat) (h : ∀ n m, Refers σ vals n m → rank m < rank n) :
    Acyclic σ vals := by
  -- along a chain of references the rank falls
  have hchain : ∀ n m, Relation.TransGen (Refers σ vals) n m → rank m < rank n := by
    intro n m hnm
    induction hnm with
    | single hr => exact h _ _ hr
    | tail _ hr ih => exact lt_trans (h _ _ hr) ih
  exact fun n hn => lt_irrefl _ (hchain n n hn)

/-- A chain of names read in values is a chain of references, backwards. -/
theorem refers_of_readIn {m n : String} (h : Relation.TransGen (ReadIn σ vals) m n) :
    Relation.TransGen (Refers σ vals) n m := by
  have hone : ∀ {m n}, ReadIn σ vals m n → Refers σ vals n m :=
    fun ⟨v, hv, hm⟩ => ⟨v, hv, infix_of_mem_keysOf hm⟩
  induction h with
  | single hr => exact .single (hone hr)
  | tail _ hr ih => exact .head (hone hr) ih

/-- On finitely many names with values and without cycles, reading down from
any name through the names read in its values ends. -/
theorem wellFounded_readIn (hfin : ∃ K : List String, ∀ n, vals n ≠ [] → n ∈ K)
    (hacyc : Acyclic σ vals) : WellFounded (ReadIn σ vals) := by
  obtain ⟨K, hK⟩ := hfin
  have hmem : ∀ m n, ReadIn σ vals m n → n ∈ K := fun _ n ⟨_, hv, _⟩ => hK n (List.ne_nil_of_mem hv)
  -- on the names in `K`, chains of reading are a strict order of a finite type
  let r : {n // n ∈ K} → {n // n ∈ K} → Prop := fun a b => Relation.TransGen (ReadIn σ vals) a.1 b.1
  have htrans : IsTrans _ r := ⟨fun _ _ _ hab hbc => hab.trans hbc⟩
  have hirrefl : Std.Irrefl r := ⟨fun a ha => hacyc a.1 (refers_of_readIn ha)⟩
  have hwf := Finite.wellFounded_of_trans_of_irrefl r
  have hacc : ∀ a : {n // n ∈ K}, Acc (ReadIn σ vals) a.1 := by
    intro a
    induction a using hwf.induction with
    | _ a ih =>
      refine ⟨_, fun m hm => ?_⟩
      by_cases hmK : m ∈ K
      · exact ih ⟨m, hmK⟩ (.single hm)
      · exact ⟨_, fun y hy => absurd (hmem y m hy) hmK⟩
  refine ⟨fun n => ?_⟩
  by_cases hnK : n ∈ K
  · exact hacc ⟨n, hnK⟩
  · exact ⟨_, fun m hm => absurd (hmem m n hm) hnK⟩

/-- The depth of a name, on names read in values that are well-founded: one
level for the name, and below it the depths of the names read in all of its
values. -/
noncomputable def depthOf (hwf : WellFounded (ReadIn σ vals)) : String → Nat :=
  hwf.fix fun n below => 1 + ((vals n).attach.map fun v =>
    ((keysOf σ v.1).attach.map fun m => below m.1 ⟨v.1, v.2, m.2⟩).sum).sum

theorem depthOf_eq (hwf : WellFounded (ReadIn σ vals)) (n : String) :
    depthOf hwf n = 1 + ((vals n).attach.map fun v => ((keysOf σ v.1).map (depthOf hwf)).sum).sum := by
  rw [depthOf, WellFounded.fix_eq]
  simp only [List.attach_map_val]

/-- Without cycles every name has a depth: more than the depths of the names
read in any one of its values together. -/
theorem exists_depth (hfin : ∃ K : List String, ∀ n, vals n ≠ [] → n ∈ K)
    (hacyc : Acyclic σ vals) :
    ∃ d : String → Nat, ∀ n, ∀ v ∈ vals n, ((keysOf σ v).map d).sum < d n := by
  have hwf := wellFounded_readIn hfin hacyc
  refine ⟨depthOf hwf, fun n v hv => ?_⟩
  -- the value is one of those the depth of `n` adds up
  have hmem : ((keysOf σ v).map (depthOf hwf)).sum ∈
      (vals n).attach.map fun v => ((keysOf σ v.1).map (depthOf hwf)).sum :=
    List.mem_map.2 ⟨⟨v, hv⟩, List.mem_attach _ _, rfl⟩
  have hle := List.le_sum_of_mem hmem
  rw [depthOf_eq hwf n]
  exact Nat.lt_of_le_of_lt hle (Nat.lt_add_of_pos_left Nat.one_pos)

end Depth

section Support

/-- The texts that key the entries of a mapping are the keys a child is found under. -/
theorem mem_of_lookup {kvs : List (Value × Value)} {k : String} {c : Value}
    (h : Value.lookup kvs (.str k) = some c) : k ∈ kvs.map (·.1.text) := by
  obtain ⟨e, he, -⟩ := Option.map_eq_some_iff.1 h
  have hkey : e.1 = .str k := by
    have hsame := List.find?_some he
    cases hk : e.1 <;> simp_all [Value.sameKey, Value.number?]
  exact List.mem_map.2 ⟨e, List.mem_of_find?_eq_some he, by rw [hkey]; rfl⟩

/-- A value has children under finitely many texts. -/
theorem child_support (v : Value) : ∃ K : List String, ∀ k c, v.child k = .ok c → k ∈ K := by
  cases hv : v.unfold with
  | object kvs =>
    refine ⟨kvs.map (·.1.text), fun k c h => ?_⟩
    simp only [Value.child, hv] at h
    split at h
    · exact mem_of_lookup (by rename_i heq; rw [heq, Except.ok.inj h])
    · cases h
  | dict kvs =>
    refine ⟨kvs.map (·.1.text), fun k c h => ?_⟩
    simp only [Value.child, hv] at h
    split at h
    · exact mem_of_lookup (by rename_i heq; rw [heq, Except.ok.inj h])
    · cases h
  | _ => exact ⟨[], fun k c h => by simp [Value.child, hv] at h⟩

/-- Below a fixed key, the second key of a path that can be followed is one of
finitely many texts. -/
theorem path_support (v : Value) (k : String) (rest : List String) :
    ∃ K : List String, ∀ n c, v.path (k :: n :: rest) = .ok c → n ∈ K := by
  cases hk : v.child k with
  | error e => exact ⟨[], fun n c h => by simp [Value.path, hk, bind, Except.bind] at h⟩
  | ok o =>
    obtain ⟨K, hK⟩ := child_support o
    refine ⟨K, fun n c h => ?_⟩
    cases hn : o.child n with
    | error e => simp [Value.path, hk, hn, bind, Except.bind] at h
    | ok c' => exact hK n c' hn

/-- A child of a record is the value of one of its entries. -/
theorem child_record {entries : List (String × Value)} {n : String} {c : Value}
    (h : (Value.record entries).child n = .ok c) : ∃ e ∈ entries, e.1 = n ∧ e.2 = c := by
  rw [Value.record, Value.child_object] at h
  split at h
  · rename_i x hx
    obtain ⟨e, he, rfl⟩ := Option.map_eq_some_iff.1 hx
    obtain ⟨⟨k, v⟩, hkv, rfl⟩ := List.mem_map.1 (List.mem_of_find?_eq_some he)
    have hsame := List.find?_some he
    simp only [Value.sameKey_str, beq_iff_eq] at hsame
    exact ⟨(k, v), hkv, hsame, Except.ok.inj h⟩
  · cases h

/-- A value with no `σ` refers to nothing. -/
theorem not_infix_of_not_mem {σ : Char} {t m : String} (ht : σ ∉ t.toList) :
    ¬ (σ :: '{' :: m.toList ++ ['}']) <:+: t.toList :=
  fun h => ht (h.subset List.mem_cons_self)

end Support

section Objects

variable (tree : Value)

/-- The texts of the values of the object `n`, as expansion fills them in; none
when `n` is not defined. -/
def objectValues (n : String) : List String :=
  match tree.path ["objects", n] with
  | .ok obj => obj.asList.map Value.text
  | .error _ => []

variable {tree}

theorem mem_objectValues {n : String} {obj v : Value} (hobj : tree.path ["objects", n] = .ok obj)
    (hv : v ∈ obj.asList) : v.text ∈ objectValues tree n := by
  rw [objectValues, hobj]
  exact List.mem_map_of_mem hv

/-- In a tree whose objects are a record, the values of an object are those of
its entry. -/
theorem mem_objectValues_of_record {objs : List (String × Value)}
    (hobjs : tree.child "objects" = .ok (Value.record objs)) {n t : String}
    (ht : t ∈ objectValues tree n) : ∃ e ∈ objs, e.1 = n ∧ t ∈ e.2.asList.map Value.text := by
  unfold objectValues at ht
  split at ht
  · rename_i obj hobj
    simp only [Value.path, hobjs, bind, Except.bind] at hobj
    cases hc : (Value.record objs).child n with
    | error f => rw [hc] at hobj; cases hobj
    | ok c =>
      rw [hc] at hobj
      obtain ⟨e, he, hn, rfl⟩ := child_record hc
      exact ⟨e, he, hn, Except.ok.inj hobj ▸ ht⟩
  · cases ht

/-- Finitely many objects have values. -/
theorem objectValues_support : ∃ K : List String, ∀ n, objectValues tree n ≠ [] → n ∈ K := by
  obtain ⟨K, hK⟩ := path_support tree "objects" []
  refine ⟨K, fun n hn => ?_⟩
  cases h : tree.path ["objects", n] with
  | error e => simp [objectValues, h] at hn
  | ok c => exact hK n c h

/-- More nesting changes nothing once object expansion does not run out of it. -/
theorem expandObjectsWith_succ : ∀ {fuel : Nat} {kind : Kind} {s : String},
    (expandObjectsWith tree fuel kind s).fault ≠ some .recursion →
      expandObjectsWith tree (fuel + 1) kind s = expandObjectsWith tree fuel kind s
  | 0, _, _, h => absurd rfl h
  | fuel + 1, kind, s, h => by
    unfold expandObjectsWith at h ⊢
    cases hr : Reference.find? '$' s with
    | none => rfl
    | some r =>
      dsimp only
      cases hobj : tree.path ["objects", r.key] with
      | error f => rfl
      | ok obj =>
        simp only [hr, hobj] at h
        refine feed_eq_of_fault_ne (fun v _ hv => ?_) h
        -- the same value filled and restricted, then expanded one level deeper
        cases kind with
        | other => exact expandObjectsWith_succ hv
        | iptables =>
          dsimp only at hv ⊢
          cases hres : restrictFamily v (r.fill v.text) with
          | error f => rfl
          | ok o =>
            rw [hres] at hv
            cases o with
            | none => rfl
            | some u => exact expandObjectsWith_succ hv

/-- A reference to an object with one text value, restricted to `u`, expands as
`u` one level deeper. -/
theorem expandObjectsWith_one_value {s v u : String} {r : Reference} {n : Nat}
    (hr : Reference.find? '$' s = some r) (hobj : tree.path ["objects", r.key] = .ok (.str v))
    (hres : restrictFamily (.str v) (r.fill v) = .ok (some u)) :
    expandObjectsWith tree (n + 1) .iptables s = expandObjectsWith tree n .iptables u := by
  rw [expandObjectsWith, hr]
  dsimp only
  rw [hobj]
  dsimp only
  rw [Value.asList_str, feed_singleton]
  simp [Value.text, hres]

variable {d : String → Nat}

/-- With more nesting than the total depth of the names a rule reads, object
expansion does not run out of it, when the depths fall from each object to the
names in its values and the values are sealed. -/
theorem expandObjectsWith_within
    (hd : ∀ n, ∀ t ∈ objectValues tree n, ((keysOf '$' t).map d).sum < d n)
    (hsealed : ∀ n, ∀ t ∈ objectValues tree n, Sealed '$' t) :
    ∀ {fuel : Nat} {kind : Kind} {s : String}, ((keysOf '$' s).map d).sum < fuel →
      (expandObjectsWith tree fuel kind s).fault ≠ some .recursion
  | 0, _, _, hfuel => absurd hfuel (Nat.not_lt_zero _)
  | fuel + 1, kind, s, hfuel => by
    unfold expandObjectsWith
    cases hr : Reference.find? '$' s with
    | none => simp [Run.ofList]
    | some r =>
      dsimp only
      cases hobj : tree.path ["objects", r.key] with
      | error f =>
        simp only [Run.fail, ne_eq, Option.some.injEq]
        rintro rfl
        exact path_ne_recursion tree _ hobj
      | ok obj =>
        dsimp only
        intro hfault
        obtain ⟨v, hv, hvf⟩ := Run.feed_fault hfault
        -- the value's names take the place of the reference, and weigh less
        have hmem := mem_objectValues hobj hv
        have hsv := hsealed _ _ hmem
        have hsum : ((keysOf '$' (r.fill v.text)).map d).sum < fuel := by
          have hlt := hd _ _ hmem
          have hle := sum_keysOf_fill_le (by decide) d hr hsv
          rw [keysOf_of_some hr, List.map_cons, List.sum_cons] at hfuel
          omega
        cases kind with
        | other => exact expandObjectsWith_within hd hsealed hsum hvf
        | iptables =>
          dsimp only at hvf
          cases hres : restrictFamily v (r.fill v.text) with
          | error e =>
            rw [hres] at hvf
            simp only [Run.fail, Option.some.injEq] at hvf
            exact restrictFamily_ne_recursion v _ (hvf ▸ hres)
          | ok o =>
            rw [hres] at hvf
            cases o with
            | none => simp [Run.ofList] at hvf
            | some u =>
              -- the family option put in front reads no name
              have hu : keysOf '$' u = keysOf '$' (r.fill v.text) := by
                rcases restrictFamily_some hres with rfl | rfl | rfl
                · rfl
                · exact keysOf_append_plain (by decide) (by decide)
                · exact keysOf_append_plain (by decide) (by decide)
              exact expandObjectsWith_within hd hsealed (hu ▸ hsum) hvf

end Objects

section Zones

variable (tree : Value)

/-- The texts of the interfaces of the zone `z`, as expansion fills them in;
none when they cannot be listed. -/
def zoneInterfaces (z : String) : List String :=
  match tree.path ["zones", z, "interfaces"] >>= Value.members with
  | .ok ms => ms.map Value.text
  | .error _ => []

variable {tree}

theorem mem_zoneInterfaces {z : String} {ms : List Value} {i : Value}
    (hms : (tree.path ["zones", z, "interfaces"] >>= Value.members) = .ok ms) (hi : i ∈ ms) :
    i.text ∈ zoneInterfaces tree z := by
  rw [zoneInterfaces, hms]
  exact List.mem_map_of_mem hi

/-- In a tree whose zones are a record, the interfaces of a zone are those its
entry lists. -/
theorem mem_zoneInterfaces_of_record {zones : List (String × Value)}
    (hzones : tree.child "zones" = .ok (Value.record zones)) {z t : String}
    (ht : t ∈ zoneInterfaces tree z) :
    ∃ e ∈ zones, e.1 = z ∧ ∃ ms, (e.2.path ["interfaces"] >>= Value.members) = .ok ms ∧
      t ∈ ms.map Value.text := by
  unfold zoneInterfaces at ht
  split at ht
  · rename_i ms hms
    cases hc : (Value.record zones).child z with
    | error f => simp [Value.path, hzones, hc, bind, Except.bind] at hms
    | ok c =>
      obtain ⟨e, he, hz, rfl⟩ := child_record hc
      refine ⟨e, he, hz, ms, ?_, ht⟩
      simpa [Value.path, hzones, hc, bind, Except.bind] using hms
  · cases ht

/-- Finitely many zones have interfaces. -/
theorem zoneInterfaces_support : ∃ K : List String, ∀ z, zoneInterfaces tree z ≠ [] → z ∈ K := by
  obtain ⟨K, hK⟩ := path_support tree "zones" ["interfaces"]
  refine ⟨K, fun z hz => ?_⟩
  cases h : tree.path ["zones", z, "interfaces"] with
  | error e => simp [zoneInterfaces, h, bind, Except.bind] at hz
  | ok c => exact hK z c h

theorem interfaces_ne_recursion (z : String) :
    (tree.path ["zones", z, "interfaces"] >>= Value.members) ≠ .error .recursion := by
  cases h : tree.path ["zones", z, "interfaces"] with
  | error e =>
    have he : e ≠ .recursion := fun he => path_ne_recursion tree _ (he ▸ h)
    simpa [bind, Except.bind] using he
  | ok c => exact members_ne_recursion c

/-- More nesting changes nothing once zone expansion does not run out of it. -/
theorem expandZonesWith_succ : ∀ {fuel : Nat} {s : String},
    (expandZonesWith tree fuel s).fault ≠ some .recursion →
      expandZonesWith tree (fuel + 1) s = expandZonesWith tree fuel s
  | 0, _, h => absurd rfl h
  | fuel + 1, s, h => by
    unfold expandZonesWith at h ⊢
    cases hr : Reference.find? '%' s with
    | none => rfl
    | some r =>
      dsimp only
      cases hms : tree.path ["zones", r.key, "interfaces"] >>= Value.members with
      | error f => rfl
      | ok ms =>
        simp only [hr, hms] at h
        exact feed_eq_of_fault_ne (fun i _ hi => expandZonesWith_succ hi) h

/-- A reference to a zone with one interface expands as the rule with the
interface filled in, one level deeper. -/
theorem expandZonesWith_one_interface {s i : String} {r : Reference} {n : Nat}
    (hr : Reference.find? '%' s = some r)
    (hms : (tree.path ["zones", r.key, "interfaces"] >>= Value.members) = .ok [.str i]) :
    expandZonesWith tree (n + 1) s = expandZonesWith tree n (r.fill i) := by
  rw [expandZonesWith, hr]
  dsimp only
  rw [hms]
  dsimp only
  rw [feed_singleton]
  rfl

variable {d : String → Nat}

/-- With more nesting than the total depth of the zones a rule reads, zone
expansion does not run out of it, when the depths fall from each zone to the
zones named in its interfaces and the interfaces are sealed. -/
theorem expandZonesWith_within
    (hd : ∀ z, ∀ t ∈ zoneInterfaces tree z, ((keysOf '%' t).map d).sum < d z)
    (hsealed : ∀ z, ∀ t ∈ zoneInterfaces tree z, Sealed '%' t) :
    ∀ {fuel : Nat} {s : String}, ((keysOf '%' s).map d).sum < fuel →
      (expandZonesWith tree fuel s).fault ≠ some .recursion
  | 0, _, hfuel => absurd hfuel (Nat.not_lt_zero _)
  | fuel + 1, s, hfuel => by
    unfold expandZonesWith
    cases hr : Reference.find? '%' s with
    | none => simp [Run.ofList]
    | some r =>
      dsimp only
      cases hms : tree.path ["zones", r.key, "interfaces"] >>= Value.members with
      | error f =>
        simp only [Run.fail, ne_eq, Option.some.injEq]
        rintro rfl
        exact interfaces_ne_recursion _ hms
      | ok ms =>
        dsimp only
        intro hfault
        obtain ⟨i, hi, hif⟩ := Run.feed_fault hfault
        -- the interface's zones take the place of the reference, and weigh less
        have hmem := mem_zoneInterfaces hms hi
        have hsum : ((keysOf '%' (r.fill i.text)).map d).sum < fuel := by
          have hlt := hd _ _ hmem
          have hle := sum_keysOf_fill_le (by decide) d hr (hsealed _ _ hmem)
          rw [keysOf_of_some hr, List.map_cons, List.sum_cons] at hfuel
          omega
        exact expandZonesWith_within hd hsealed hsum hif

end Zones

/-- Expansion terminates when no name refers to itself through other names and
every value is sealed: for every rule there is a nesting depth at which
expansion does not run out of nesting, and any more nesting gives the same
run.  This holds of object references with the values of the objects, and of
zone references with the interfaces of the zones. -/
theorem expansion_terminates (tree : Value) :
    (Acyclic '$' (objectValues tree) → (∀ n, ∀ t ∈ objectValues tree n, Sealed '$' t) →
      ∀ kind s, ∃ N, (expandObjectsWith tree N kind s).fault ≠ some .recursion ∧
        ∀ fuel, N ≤ fuel → expandObjectsWith tree fuel kind s = expandObjectsWith tree N kind s) ∧
    (Acyclic '%' (zoneInterfaces tree) → (∀ z, ∀ t ∈ zoneInterfaces tree z, Sealed '%' t) →
      ∀ s, ∃ N, (expandZonesWith tree N s).fault ≠ some .recursion ∧
        ∀ fuel, N ≤ fuel → expandZonesWith tree fuel s = expandZonesWith tree N s) := by
  refine ⟨fun hacyc hsealed kind s => ?_, fun hacyc hsealed s => ?_⟩
  · -- one level more than the total depth of the names the rule reads
    obtain ⟨d, hd⟩ := exists_depth objectValues_support hacyc
    have hN : (expandObjectsWith tree (((keysOf '$' s).map d).sum + 1) kind s).fault ≠
        some .recursion := expandObjectsWith_within hd hsealed (Nat.lt_succ_self _)
    exact ⟨_, hN, stable_of_succ (F := fun n => expandObjectsWith tree n kind s)
      (fun _ hn => expandObjectsWith_succ hn) hN⟩
  · obtain ⟨d, hd⟩ := exists_depth zoneInterfaces_support hacyc
    have hN : (expandZonesWith tree (((keysOf '%' s).map d).sum + 1) s).fault ≠ some .recursion :=
      expandZonesWith_within hd hsealed (Nat.lt_succ_self _)
    exact ⟨_, hN, stable_of_succ (F := fun n => expandZonesWith tree n s)
      (fun _ hn => expandZonesWith_succ hn) hN⟩

/-- An office: the object `lan` names the subnets of the office and the lab, and
two zones of plain interfaces. -/
def officeTree : Value :=
  Value.record [
    ("objects", Value.record [
      ("lan", .list [.str "${office}", .str "${lab}"]),
      ("office", .str "10.1.0.0/16"),
      ("lab", .str "10.2.0.0/16")]),
    ("zones", Value.record [
      ("lan", Value.record [("interfaces", .list [.str "eth0", .str "eth1"])]),
      ("wan", Value.record [("interfaces", .list [.str "eth2"])])])]

theorem officeRules_terminate :
    (Acyclic '$' (objectValues officeTree) ∧
      ∀ n, ∀ t ∈ objectValues officeTree n, Sealed '$' t) ∧
    (Acyclic '%' (zoneInterfaces officeTree) ∧
      ∀ z, ∀ t ∈ zoneInterfaces officeTree z, Sealed '%' t) ∧
    (∃ N, (expandObjectsWith officeTree N .iptables "-A FORWARD -s ${lan} -j ACCEPT").fault ≠
        some .recursion ∧ ∀ fuel, N ≤ fuel →
          expandObjectsWith officeTree fuel .iptables "-A FORWARD -s ${lan} -j ACCEPT" =
            expandObjectsWith officeTree N .iptables "-A FORWARD -s ${lan} -j ACCEPT") ∧
    (∃ N, (expandZonesWith officeTree N "-A FORWARD -i %{lan} -o %{wan} -j ACCEPT").fault ≠
        some .recursion ∧ ∀ fuel, N ≤ fuel →
          expandZonesWith officeTree fuel "-A FORWARD -i %{lan} -o %{wan} -j ACCEPT" =
            expandZonesWith officeTree N "-A FORWARD -i %{lan} -o %{wan} -j ACCEPT") := by
  -- the values of the objects: only `lan` refers, and not to itself
  have hvals : ∀ n t, t ∈ objectValues officeTree n →
      (n = "lan" ∧ (t = "${office}" ∨ t = "${lab}")) ∨ t = "10.1.0.0/16" ∨ t = "10.2.0.0/16" := by
    intro n t ht
    obtain ⟨e, he, rfl, htv⟩ := mem_objectValues_of_record rfl ht
    simp only [List.mem_cons, List.not_mem_nil, or_false] at he
    rcases he with rfl | rfl | rfl <;> simp [Value.asList, Value.unfold, Value.text] at htv <;>
      simp [htv]
  have hifaces : ∀ z t, t ∈ zoneInterfaces officeTree z → t = "eth0" ∨ t = "eth1" ∨ t = "eth2" := by
    intro z t ht
    obtain ⟨e, he, -, ms, hms, htv⟩ := mem_zoneInterfaces_of_record rfl ht
    simp only [List.mem_cons, List.not_mem_nil, or_false] at he
    rcases he with rfl | rfl
    · have hlan : ms = [.str "eth0", .str "eth1"] := (Except.ok.inj hms).symm
      simp [hlan, Value.text] at htv
      rcases htv with rfl | rfl <;> simp
    · have hwan : ms = [.str "eth2"] := (Except.ok.inj hms).symm
      simp [hwan, Value.text] at htv
      simp [htv]
  have hobjects : Acyclic '$' (objectValues officeTree) ∧
      ∀ n, ∀ t ∈ objectValues officeTree n, Sealed '$' t := by
    refine ⟨acyclic_of_rank (fun n => if n = "lan" then 1 else 0) fun n m hnm => ?_,
      fun n t ht => ?_⟩
    · obtain ⟨t, ht, hinf⟩ := hnm
      rcases hvals n t ht with ⟨rfl, rfl | rfl⟩ | rfl | rfl
      · have hm : m ≠ "lan" := by rintro rfl; exact absurd hinf (by decide +kernel)
        simp [hm]
      · have hm : m ≠ "lan" := by rintro rfl; exact absurd hinf (by decide +kernel)
        simp [hm]
      · exact absurd hinf (not_infix_of_not_mem (by decide +kernel))
      · exact absurd hinf (not_infix_of_not_mem (by decide +kernel))
    · rcases hvals n t ht with ⟨-, rfl | rfl⟩ | rfl | rfl <;> exact sealed_of_check (by decide +kernel)
  have hzones : Acyclic '%' (zoneInterfaces officeTree) ∧
      ∀ z, ∀ t ∈ zoneInterfaces officeTree z, Sealed '%' t := by
    refine ⟨acyclic_of_rank (fun _ => 0) fun z m hzm => ?_, fun z t ht => ?_⟩
    · obtain ⟨t, ht, hinf⟩ := hzm
      rcases hifaces z t ht with rfl | rfl | rfl <;>
        exact absurd hinf (not_infix_of_not_mem (by decide +kernel))
    · rcases hifaces z t ht with rfl | rfl | rfl <;> exact sealed_of_check (by decide +kernel)
  exact ⟨hobjects, hzones, (expansion_terminates officeTree).1 hobjects.1 hobjects.2 .iptables _,
    (expansion_terminates officeTree).2 hzones.1 hzones.2 _⟩

/-- Two objects whose values refer to `b` only. -/
def loopObjects : Value :=
  Value.record [("objects", Value.record [("a", .str "$${b}"), ("b", .str "{a}")])]

/-- Two zones whose interfaces name `b` only. -/
def loopZones : Value :=
  Value.record [("zones", Value.record [
    ("a", Value.record [("interfaces", .list [.str "%%{b}"])]),
    ("b", Value.record [("interfaces", .list [.str "{a}"])])])]

/-- No cycle among the names is not enough for expansion to end: `${a}` fills in
as `$${b}`, whose `${b}` fills in as `${a}` again, and likewise for zones, so
expansion runs out of any nesting it is given. -/
theorem expansion_loops_without_cycle :
    (Acyclic '$' (objectValues loopObjects) ∧
      ∀ fuel, expandObjectsWith loopObjects fuel .iptables "${a}" = Run.fail .recursion) ∧
    (Acyclic '%' (zoneInterfaces loopZones) ∧
      ∀ fuel, expandZonesWith loopZones fuel "%{a}" = Run.fail .recursion) := by
  refine ⟨⟨?_, ?_⟩, ⟨?_, ?_⟩⟩
  · -- only `a` refers, to `b`
    refine acyclic_of_rank (fun n => if n = "a" then 1 else 0) fun n m hnm => ?_
    obtain ⟨t, ht, hinf⟩ := hnm
    obtain ⟨e, he, rfl, htv⟩ := mem_objectValues_of_record rfl ht
    simp only [List.mem_cons, List.not_mem_nil, or_false] at he
    rcases he with rfl | rfl <;> simp [Value.asList, Value.unfold, Value.text] at htv <;> subst htv
    · have hm : m ≠ "a" := by rintro rfl; exact absurd hinf (by decide +kernel)
      simp [hm]
    · exact absurd hinf (not_infix_of_not_mem (by decide +kernel))
  · -- two levels bring `${a}` back
    have hstep : ∀ n, expandObjectsWith loopObjects (n + 2) .iptables "${a}" =
        expandObjectsWith loopObjects n .iptables "${a}" := fun n => by
      rw [expandObjectsWith_one_value (r := ⟨[], ['a'], []⟩) (u := "$${b}") (by decide +kernel) rfl
          (by decide +kernel),
        expandObjectsWith_one_value (r := ⟨['$'], ['b'], []⟩) (u := "${a}") (by decide +kernel) rfl
          (by decide +kernel)]
    have hpair : ∀ n, expandObjectsWith loopObjects n .iptables "${a}" = Run.fail .recursion ∧
        expandObjectsWith loopObjects (n + 1) .iptables "${a}" = Run.fail .recursion := by
      intro n
      induction n with
      | zero =>
        refine ⟨rfl, ?_⟩
        rw [expandObjectsWith_one_value (r := ⟨[], ['a'], []⟩) (u := "$${b}") (by decide +kernel) rfl
          (by decide +kernel)]
        rfl
      | succ n ih => exact ⟨ih.2, (hstep n).trans ih.1⟩
    exact fun fuel => (hpair fuel).1
  · refine acyclic_of_rank (fun z => if z = "a" then 1 else 0) fun z m hzm => ?_
    obtain ⟨t, ht, hinf⟩ := hzm
    obtain ⟨e, he, rfl, ms, hms, htv⟩ := mem_zoneInterfaces_of_record rfl ht
    simp only [List.mem_cons, List.not_mem_nil, or_false] at he
    rcases he with rfl | rfl
    · have ha : ms = [.str "%%{b}"] := (Except.ok.inj hms).symm
      simp [ha, Value.text] at htv
      subst htv
      have hm : m ≠ "a" := by rintro rfl; exact absurd hinf (by decide +kernel)
      simp [hm]
    · have hb : ms = [.str "{a}"] := (Except.ok.inj hms).symm
      simp [hb, Value.text] at htv
      subst htv
      exact absurd hinf (not_infix_of_not_mem (by decide +kernel))
  · have hstep : ∀ n, expandZonesWith loopZones (n + 2) "%{a}" = expandZonesWith loopZones n "%{a}" :=
      fun n => by
        rw [expandZonesWith_one_interface (r := ⟨[], ['a'], []⟩) (i := "%%{b}") (by decide +kernel) rfl,
          show (⟨[], ['a'], []⟩ : Reference).fill "%%{b}" = "%%{b}" by decide +kernel,
          expandZonesWith_one_interface (r := ⟨['%'], ['b'], []⟩) (i := "{a}") (by decide +kernel) rfl,
          show (⟨['%'], ['b'], []⟩ : Reference).fill "{a}" = "%{a}" by decide +kernel]
    have hpair : ∀ n, expandZonesWith loopZones n "%{a}" = Run.fail .recursion ∧
        expandZonesWith loopZones (n + 1) "%{a}" = Run.fail .recursion := by
      intro n
      induction n with
      | zero =>
        refine ⟨rfl, ?_⟩
        rw [expandZonesWith_one_interface (r := ⟨[], ['a'], []⟩) (i := "%%{b}") (by decide +kernel) rfl]
        rfl
      | succ n ih => exact ⟨ih.2, (hstep n).trans ih.1⟩
    exact fun fuel => (hpair fuel).1

end Rule
end Firewall
