import Firewall.Value.Store
import Mathlib.Data.List.Nodup
import Mathlib.Data.List.Perm.Subperm
import Mathlib.Logic.Relation

/-!
# Documents that hold trees

A document keeps its lists and mappings as containers of a store, and two
places of a document may hold one container.  A document holds a tree when no
container is met twice on the way down from its root: `Holds s x v ids` says
that the member `x` holds the value `v`, through the containers `ids` of the
store `s`, each met once.  Lists and mappings live in containers; everything
else a member holds in place (`Inline`).

Such a member depends on its containers only (`Holds.transport`), reaches no
container twice and none from itself (`Holds.not_transGen_self`), and reads
as its value (`Doc.read_eq_of_holds`).  A value put in a store holds itself
(`Doc.ofValue_holds`), two stores joined keep what each held (the first
store is extended, `Extends.adjoin`, and the second shifted past it,
`Holds.adjoin_right`), and a document that counts as
false becomes one that holds an empty plain mapping (`Doc.orEmpty_holds`).
-/

namespace Firewall
namespace Store

section Cells

variable {s : Store} {i j : Nat} {c : Cell}

theorem get_of_size_le (h : s.size ≤ i) : s.get i = .list [] := by
  simp only [get, size] at h ⊢
  rw [Array.getD_eq_getD_getElem?, Array.getElem?_eq_none h]
  rfl

@[simp] theorem size_put : (s.put i c).size = s.size := by
  simp [put, size]

theorem get_put_self (h : i < s.size) : (s.put i c).get i = c := by
  simp only [put, get, size] at h ⊢
  simp [Array.getD_eq_getD_getElem?, h]

theorem get_put_ne (h : j ≠ i) : (s.put i c).get j = s.get j := by
  simp only [put, get]
  simp [Array.getD_eq_getD_getElem?, Ne.symm h]

@[simp] theorem size_add : (s.add c).1.size = s.size + 1 := by
  simp [add, size]

@[simp] theorem add_snd : (s.add c).2 = s.size := rfl

theorem get_add_self : (s.add c).1.get s.size = c := by
  simp [add, get, size, Array.getD_eq_getD_getElem?]

theorem get_add_lt (h : j < s.size) : (s.add c).1.get j = s.get j := by
  simp only [add, get, size] at h ⊢
  simp [Array.getD_eq_getD_getElem?, Array.getElem?_push, Nat.ne_of_lt h]

end Cells

/-- A value a store holds in place rather than in a container: no list and no
mapping. -/
def Inline (v : Value) : Prop := v.mapping? = none ∧ ∀ xs, v ≠ .list xs

mutual
/-- The member `x` of the store holds the value `v` through the containers `ids`,
none of them met twice. -/
inductive Holds (s : Store) : Slot → Value → List Nat → Prop
  | val {v : Value} : Inline v → Holds s (.val v) v []
  | list {id : Nat} {xs : List Slot} {vs : List Value} {ids : List Nat} :
      id < s.size → s.get id = .list xs → ItemsHold s xs vs ids → id ∉ ids →
      Holds s (.ref id) (.list vs) (id :: ids)
  | tuple {id : Nat} {xs : List Slot} {vs : List Value} {ids : List Nat} :
      id < s.size → s.get id = .tuple xs → ItemsHold s xs vs ids → id ∉ ids →
      Holds s (.ref id) (.tuple vs) (id :: ids)
  | object {id : Nat} {es : List (Value × Slot)} {kvs : List (Value × Value)} {ids : List Nat} :
      id < s.size → s.get id = .object es → EntriesHold s es kvs ids → id ∉ ids →
      Holds s (.ref id) (.object kvs) (id :: ids)
  | dict {id : Nat} {es : List (Value × Slot)} {kvs : List (Value × Value)} {ids : List Nat} :
      id < s.size → s.get id = .dict es → EntriesHold s es kvs ids → id ∉ ids →
      Holds s (.ref id) (.dict kvs) (id :: ids)

/-- The members of a list hold the values, through containers apart from each other. -/
inductive ItemsHold (s : Store) : List Slot → List Value → List Nat → Prop
  | nil : ItemsHold s [] [] []
  | cons {x : Slot} {v : Value} {i : List Nat} {xs : List Slot} {vs : List Value}
      {is : List Nat} :
      Holds s x v i → ItemsHold s xs vs is → i.Disjoint is → ItemsHold s (x :: xs) (v :: vs) (i ++ is)

/-- The entries of a mapping hold the entries of a value, under the same keys,
through containers apart from each other. -/
inductive EntriesHold (s : Store) : List (Value × Slot) → List (Value × Value) → List Nat → Prop
  | nil : EntriesHold s [] [] []
  | cons {k : Value} {x : Slot} {v : Value} {i : List Nat} {es : List (Value × Slot)}
      {kvs : List (Value × Value)} {is : List Nat} :
      Holds s x v i → EntriesHold s es kvs is → i.Disjoint is →
      EntriesHold s ((k, x) :: es) ((k, v) :: kvs) (i ++ is)
end

section Basic

variable {s t : Store}

mutual
theorem Holds.nodup {x : Slot} {v : Value} {ids : List Nat} : Holds s x v ids → ids.Nodup
  | .val _ => List.nodup_nil
  | .list _ _ h hid | .tuple _ _ h hid => List.nodup_cons.2 ⟨hid, h.nodup⟩
  | .object _ _ h hid | .dict _ _ h hid => List.nodup_cons.2 ⟨hid, h.nodup⟩

theorem ItemsHold.nodup {xs : List Slot} {vs : List Value} {ids : List Nat} : ItemsHold s xs vs ids → ids.Nodup
  | .nil => List.nodup_nil
  | .cons h hs hd => List.nodup_append.2 ⟨h.nodup, hs.nodup, fun _ ha _ hb hab => hd ha (hab ▸ hb)⟩

theorem EntriesHold.nodup {es : List (Value × Slot)} {kvs : List (Value × Value)} {ids : List Nat} :
    EntriesHold s es kvs ids → ids.Nodup
  | .nil => List.nodup_nil
  | .cons h hs hd => List.nodup_append.2 ⟨h.nodup, hs.nodup, fun _ ha _ hb hab => hd ha (hab ▸ hb)⟩
end

mutual
theorem Holds.lt_size {x : Slot} {v : Value} {ids : List Nat} : Holds s x v ids → ∀ j ∈ ids, j < s.size
  | .val _ => by simp
  | .list hlt _ h _ | .tuple hlt _ h _ | .object hlt _ h _ | .dict hlt _ h _ => by
    intro j hj
    rcases List.mem_cons.1 hj with rfl | hj
    · exact hlt
    · exact h.lt_size j hj

theorem ItemsHold.lt_size {xs : List Slot} {vs : List Value} {ids : List Nat} :
    ItemsHold s xs vs ids → ∀ j ∈ ids, j < s.size
  | .nil => by simp
  | .cons h hs _ => fun j hj => (List.mem_append.1 hj).elim (h.lt_size j) (hs.lt_size j)

theorem EntriesHold.lt_size {es : List (Value × Slot)} {kvs : List (Value × Value)} {ids : List Nat} :
    EntriesHold s es kvs ids → ∀ j ∈ ids, j < s.size
  | .nil => by simp
  | .cons h hs _ => fun j hj => (List.mem_append.1 hj).elim (h.lt_size j) (hs.lt_size j)
end

/-- The containers of a tree are as many as the store holds at most. -/
theorem Holds.length_le {x : Slot} {v : Value} {ids : List Nat} (h : Holds s x v ids) : ids.length ≤ s.size := by
  have hsub : ids ⊆ List.range s.size := fun j hj => List.mem_range.2 (h.lt_size j hj)
  simpa using (h.nodup.subperm hsub).length_le

/-- Two stores agree on the containers `ids`. -/
def Agrees (s t : Store) (ids : List Nat) : Prop := ∀ j ∈ ids, j < t.size ∧ t.get j = s.get j

theorem Agrees.cons {ids : List Nat} {j : Nat} (h : Agrees s t (j :: ids)) : j < t.size ∧ t.get j = s.get j :=
  h j List.mem_cons_self

theorem Agrees.tail {ids : List Nat} {j : Nat} (h : Agrees s t (j :: ids)) : Agrees s t ids :=
  fun k hk => h k (List.mem_cons_of_mem _ hk)

theorem Agrees.left {ids is : List Nat} (h : Agrees s t (ids ++ is)) : Agrees s t ids :=
  fun k hk => h k (List.mem_append_left _ hk)

theorem Agrees.right {ids is : List Nat} (h : Agrees s t (ids ++ is)) : Agrees s t is :=
  fun k hk => h k (List.mem_append_right _ hk)

mutual
/-- A member holds its value in every store that agrees on its containers. -/
theorem Holds.transport {x : Slot} {v : Value} {ids : List Nat} : Holds s x v ids → Agrees s t ids → Holds t x v ids
  | .val hv, _ => .val hv
  | .list _ hget h hid, ha => .list ha.cons.1 (ha.cons.2.trans hget) (h.transport ha.tail) hid
  | .tuple _ hget h hid, ha => .tuple ha.cons.1 (ha.cons.2.trans hget) (h.transport ha.tail) hid
  | .object _ hget h hid, ha => .object ha.cons.1 (ha.cons.2.trans hget) (h.transport ha.tail) hid
  | .dict _ hget h hid, ha => .dict ha.cons.1 (ha.cons.2.trans hget) (h.transport ha.tail) hid

theorem ItemsHold.transport {xs : List Slot} {vs : List Value} {ids : List Nat} :
    ItemsHold s xs vs ids → Agrees s t ids → ItemsHold t xs vs ids
  | .nil, _ => .nil
  | .cons h hs hd, ha => .cons (h.transport ha.left) (hs.transport ha.right) hd

theorem EntriesHold.transport {es : List (Value × Slot)} {kvs : List (Value × Value)} {ids : List Nat} :
    EntriesHold s es kvs ids → Agrees s t ids → EntriesHold t es kvs ids
  | .nil, _ => .nil
  | .cons h hs hd, ha => .cons (h.transport ha.left) (hs.transport ha.right) hd
end

theorem ItemsHold.isEmpty_eq {xs : List Slot} {vs : List Value} {ids : List Nat} :
    ItemsHold s xs vs ids → xs.isEmpty = vs.isEmpty
  | .nil | .cons .. => rfl

theorem EntriesHold.isEmpty_eq {es : List (Value × Slot)} {kvs : List (Value × Value)}
    {ids : List Nat} : EntriesHold s es kvs ids → es.isEmpty = kvs.isEmpty
  | .nil | .cons .. => rfl

/-- A member counts as true exactly when its value does. -/
theorem Holds.truthy_eq {x : Slot} {v : Value} {ids : List Nat} (h : Holds s x v ids) :
    s.truthy x = v.truthy := by
  cases h with
  | val => rfl
  | list _ hget h _ | tuple _ hget h _ =>
    simp [Store.truthy, hget, Cell.nonEmpty, Cell.members, Value.truthy, h.isEmpty_eq]
  | object _ hget h _ | dict _ hget h _ =>
    simp [Store.truthy, hget, Cell.nonEmpty, Cell.members, Value.truthy, h.isEmpty_eq]

end Basic

section Reading

variable {s : Store}

mutual
/-- With more levels than containers, reading a member gives its value. -/
theorem Holds.readSlot_eq {x : Slot} {v : Value} {ids : List Nat} : Holds s x v ids → ∀ {fuel : Nat} (path : List Nat), ids.length < fuel →
    s.readSlot [] fuel path x = v
  | .val _, fuel, _, _ => by cases fuel <;> rfl
  | .list _ hget h _, fuel + 1, path, hlen => by
    simp only [readSlot, List.contains_nil, Bool.false_and, Bool.false_eq_true, if_false, hget]
    rw [h.readSlot_eq path (by simpa using hlen)]
  | .tuple _ hget h _, fuel + 1, path, hlen => by
    simp only [readSlot, List.contains_nil, Bool.false_and, Bool.false_eq_true, if_false, hget]
    rw [h.readSlot_eq path (by simpa using hlen)]
  | .object _ hget h _, fuel + 1, path, hlen => by
    simp only [readSlot, List.contains_nil, Bool.false_and, Bool.false_eq_true, if_false, hget]
    exact congrArg Value.object (h.readSlot_eq path (by simpa using hlen))
  | .dict _ hget h _, fuel + 1, path, hlen => by
    simp only [readSlot, List.contains_nil, Bool.false_and, Bool.false_eq_true, if_false, hget]
    exact congrArg Value.dict (h.readSlot_eq path (by simpa using hlen))

theorem ItemsHold.readSlot_eq {xs : List Slot} {vs : List Value} {ids : List Nat} :
    ItemsHold s xs vs ids → ∀ {fuel : Nat} (path : List Nat), ids.length < fuel →
      xs.map (s.readSlot [] fuel path) = vs
  | .nil, _, _, _ => rfl
  | .cons h hs _, fuel, path, hlen => by
    rw [List.length_append] at hlen
    rw [List.map_cons, h.readSlot_eq path (show _ < fuel by omega),
      hs.readSlot_eq path (show _ < fuel by omega)]

theorem EntriesHold.readSlot_eq {es : List (Value × Slot)} {kvs : List (Value × Value)} {ids : List Nat} :
    EntriesHold s es kvs ids → ∀ {fuel : Nat} (path : List Nat), ids.length < fuel →
      es.map (fun (k, x) => (k, s.readSlot [] fuel path x)) = kvs
  | .nil, _, _, _ => rfl
  | .cons h hs _, fuel, path, hlen => by
    rw [List.length_append] at hlen
    rw [← h.readSlot_eq path (show _ < fuel by omega), ← hs.readSlot_eq path (show _ < fuel by omega)]
    rfl
end

end Reading

section Reach

variable {s : Store}

/-- The container `i` holds the container `j` as one of its members. -/
def Step (s : Store) (i j : Nat) : Prop := j ∈ (s.get i).refs

theorem mem_refs {c : Cell} {j : Nat} : j ∈ c.refs ↔ Slot.ref j ∈ c.members := by
  simp only [Cell.refs, List.mem_filterMap]
  constructor
  · rintro ⟨a, ha, hf⟩
    cases a with
    | val => cases hf
    | ref id => cases hf; exact ha
  · exact fun h => ⟨_, h, rfl⟩

theorem ItemsHold.exists_of_mem {xs : List Slot} {vs : List Value} {ids : List Nat} {x : Slot} :
    ItemsHold s xs vs ids → x ∈ xs → ∃ v i, Holds s x v i ∧ i ⊆ ids
  | .cons h hs _, hx => by
    rcases List.mem_cons.1 hx with rfl | hx
    · exact ⟨_, _, h, List.subset_append_left _ _⟩
    · obtain ⟨v, i, hi, hsub⟩ := hs.exists_of_mem hx
      exact ⟨v, i, hi, fun a ha => List.mem_append_right _ (hsub ha)⟩

theorem EntriesHold.exists_of_mem {es : List (Value × Slot)} {kvs : List (Value × Value)}
    {ids : List Nat} {x : Slot} :
    EntriesHold s es kvs ids → x ∈ es.map (·.2) → ∃ v i, Holds s x v i ∧ i ⊆ ids
  | .cons h hs _, hx => by
    rcases List.mem_cons.1 hx with rfl | hx
    · exact ⟨_, _, h, List.subset_append_left _ _⟩
    · obtain ⟨v, i, hi, hsub⟩ := hs.exists_of_mem hx
      exact ⟨v, i, hi, fun a ha => List.mem_append_right _ (hsub ha)⟩

theorem Holds.ref_ids {r : Nat} {v : Value} {ids : List Nat} (h : Holds s (.ref r) v ids) :
    ∃ rest, ids = r :: rest ∧ r ∉ rest := by
  cases h <;> exact ⟨_, rfl, by assumption⟩

/-- A container of a tree holds only containers of the tree below it. -/
theorem Holds.step {i j : Nat} {v : Value} {ids : List Nat} (h : Holds s (.ref i) v ids)
    (hj : Step s i j) : ∃ w idsj, Holds s (.ref j) w idsj ∧ idsj ⊆ ids.tail := by
  unfold Step at hj
  rw [mem_refs] at hj
  cases h with
  | list _ hget h _ | tuple _ hget h _ =>
    rw [hget] at hj
    exact h.exists_of_mem hj
  | object _ hget h _ | dict _ hget h _ =>
    rw [hget] at hj
    exact h.exists_of_mem hj

theorem Holds.transGen {r j : Nat} {v : Value} {ids : List Nat} (h : Holds s (.ref r) v ids)
    (hj : Relation.TransGen (Step s) r j) : ∃ w idsj, Holds s (.ref j) w idsj ∧ idsj ⊆ ids.tail := by
  induction hj with
  | single hs => exact h.step hs
  | tail _ hs ih =>
    obtain ⟨w, idsj, hj, hsub⟩ := ih
    obtain ⟨w', idsk, hk, hsub'⟩ := hj.step hs
    exact ⟨w', idsk, hk, fun a ha => hsub (List.mem_of_mem_tail (hsub' ha))⟩

/-- No container of a tree holds itself, directly or through others. -/
theorem Holds.not_transGen_self {r : Nat} {v : Value} {ids : List Nat} (h : Holds s (.ref r) v ids) :
    ¬ Relation.TransGen (Step s) r r := by
  intro hr
  obtain ⟨w, idsr, hr', hsub⟩ := h.transGen hr
  obtain ⟨rest, rfl, hnot⟩ := h.ref_ids
  obtain ⟨rest', rfl, -⟩ := hr'.ref_ids
  exact hnot (hsub List.mem_cons_self)

/-- The search for reachable containers finds only containers with a property
that the start has and that every step keeps. -/
theorem mem_reach {P : Nat → Prop} (hstep : ∀ i j, P i → Step s i j → P j) :
    ∀ (fuel : Nat) (frontier seen : List Nat), (∀ j ∈ frontier, P j) → (∀ j ∈ seen, P j) →
      ∀ j ∈ s.reach fuel frontier seen, P j
  | 0, _, _, _, hseen => by simpa [reach] using hseen
  | _ + 1, [], _, _, hseen => by simpa [reach] using hseen
  | fuel + 1, a :: l, seen, hfront, hseen => by
    -- the next frontier is held by the current one
    have hnext : ∀ j ∈ (((a :: l).flatMap fun i => (s.get i).refs).filter (!seen.contains ·)).eraseDups,
        P j := by
      intro j hj
      rw [List.mem_eraseDups, List.mem_filter, List.mem_flatMap] at hj
      obtain ⟨⟨i, hi, hij⟩, -⟩ := hj
      exact hstep i j (hfront i hi) hij
    exact mem_reach hstep fuel _ _ hnext
      (fun j hj => (List.mem_append.1 hj).elim (hseen j) (hnext j))

theorem transGen_of_mem_reachable {r j : Nat} (h : j ∈ s.reachable r) :
    Relation.TransGen (Step s) r j := by
  have hfirst : ∀ j ∈ (s.get r).refs.eraseDups, Relation.TransGen (Step s) r j :=
    fun j hj => .single (List.mem_eraseDups.1 hj)
  exact mem_reach (P := fun j => Relation.TransGen (Step s) r j) (fun _ _ hi hs => hi.tail hs)
    _ _ _ hfirst hfirst j h

theorem Holds.onCycle_eq_false {r : Nat} {v : Value} {ids : List Nat} (h : Holds s (.ref r) v ids) :
    s.onCycle r = false := by
  unfold onCycle
  rw [Bool.eq_false_iff]
  intro hc
  exact h.not_transGen_self (transGen_of_mem_reachable (List.contains_iff_mem.1 hc))

end Reach

section Place

/-- A store that keeps every container of another and may have more. -/
def Extends (s t : Store) : Prop := s.size ≤ t.size ∧ ∀ j < s.size, t.get j = s.get j

theorem Extends.refl (s : Store) : Extends s s := ⟨Nat.le_refl _, fun _ _ => rfl⟩

theorem Extends.trans {s t u : Store} (h : Extends s t) (h' : Extends t u) : Extends s u :=
  ⟨Nat.le_trans h.1 h'.1, fun j hj => (h'.2 j (Nat.lt_of_lt_of_le hj h.1)).trans (h.2 j hj)⟩

theorem Extends.add (s : Store) (c : Cell) : Extends s (s.add c).1 :=
  ⟨by simp, fun _ hj => get_add_lt hj⟩

theorem Extends.agrees {s t : Store} {ids : List Nat} (h : Extends s t) (hids : ∀ j ∈ ids, j < s.size) :
    Agrees s t ids :=
  fun j hj => ⟨Nat.lt_of_lt_of_le (hids j hj) h.1, h.2 j (hids j hj)⟩

theorem Holds.extend {s t : Store} {x : Slot} {v : Value} {ids : List Nat} (h : Holds s x v ids)
    (ht : Extends s t) : Holds t x v ids :=
  h.transport (ht.agrees h.lt_size)

theorem ItemsHold.extend {s t : Store} {xs : List Slot} {vs : List Value} {ids : List Nat}
    (h : ItemsHold s xs vs ids) (ht : Extends s t) : ItemsHold t xs vs ids :=
  h.transport (ht.agrees h.lt_size)

theorem EntriesHold.extend {s t : Store} {es : List (Value × Slot)} {kvs : List (Value × Value)}
    {ids : List Nat} (h : EntriesHold s es kvs ids) (ht : Extends s t) : EntriesHold t es kvs ids :=
  h.transport (ht.agrees h.lt_size)

/-- What a value without cycles becomes in a store: the member `place` gives
holds it, through new containers only, and the old containers stay. -/
structure Placed (s t : Store) (x : Slot) (v : Value) : Prop where
  holds : ∃ ids, Holds t x v ids ∧ ∀ j ∈ ids, s.size ≤ j
  extends_ : Extends s t

mutual
theorem place_placed (s : Store) : ∀ v : Value, v.hasCycle = false →
    Placed s (s.place v).1 (s.place v).2 v
  | .list xs, hv => by
    obtain ⟨ids, hitems, hfresh, hext⟩ := placeAll_placed s xs hv
    have hext' := Extends.add (s.placeAll xs).1 (.list (s.placeAll xs).2)
    show Placed s ((s.placeAll xs).1.add (.list (s.placeAll xs).2)).1 (.ref (s.placeAll xs).1.size) _
    refine ⟨⟨_ :: ids, .list (by simp) get_add_self (hitems.extend hext')
      (fun h => Nat.lt_irrefl _ (hitems.lt_size _ h)), ?_⟩, hext.trans hext'⟩
    intro j hj
    rcases List.mem_cons.1 hj with rfl | hj
    · exact hext.1
    · exact hfresh j hj
  | .object kvs, hv => by
    obtain ⟨ids, hentries, hfresh, hext⟩ := placeEntries_placed s kvs hv
    have hext' := Extends.add (s.placeEntries kvs).1 (.object (s.placeEntries kvs).2)
    show Placed s ((s.placeEntries kvs).1.add (.object (s.placeEntries kvs).2)).1 (.ref (s.placeEntries kvs).1.size) _
    refine ⟨⟨_ :: ids, .object (by simp) get_add_self (hentries.extend hext')
      (fun h => Nat.lt_irrefl _ (hentries.lt_size _ h)), ?_⟩, hext.trans hext'⟩
    intro j hj
    rcases List.mem_cons.1 hj with rfl | hj
    · exact hext.1
    · exact hfresh j hj
  | .dict kvs, hv => by
    obtain ⟨ids, hentries, hfresh, hext⟩ := placeEntries_placed s kvs hv
    have hext' := Extends.add (s.placeEntries kvs).1 (.dict (s.placeEntries kvs).2)
    show Placed s ((s.placeEntries kvs).1.add (.dict (s.placeEntries kvs).2)).1 (.ref (s.placeEntries kvs).1.size) _
    refine ⟨⟨_ :: ids, .dict (by simp) get_add_self (hentries.extend hext')
      (fun h => Nat.lt_irrefl _ (hentries.lt_size _ h)), ?_⟩, hext.trans hext'⟩
    intro j hj
    rcases List.mem_cons.1 hj with rfl | hj
    · exact hext.1
    · exact hfresh j hj
  | .null, _ | .bool _, _ | .int _, _ | .float _, _ | .complex _ _, _ | .str _, _ | .bytes _, _
  | .stamp _, _ | .tuple _, _ | .set _, _ | .named _ _, _ =>
    ⟨⟨[], .val ⟨by simp [Value.mapping?, Value.unfold], by simp⟩, by simp⟩, .refl s⟩

theorem placeAll_placed (s : Store) : ∀ xs : List Value, Value.hasCycleAll xs = false →
    ∃ ids, ItemsHold (s.placeAll xs).1 (s.placeAll xs).2 xs ids ∧ (∀ j ∈ ids, s.size ≤ j) ∧
      Extends s (s.placeAll xs).1
  | [], _ => ⟨[], .nil, by simp, .refl s⟩
  | x :: xs, hxs => by
    simp only [Value.hasCycleAll, Bool.or_eq_false_iff] at hxs
    obtain ⟨⟨i, hx, hfresh⟩, hext⟩ := place_placed s x hxs.1
    obtain ⟨is, hrest, hfresh', hext'⟩ := placeAll_placed (s.place x).1 xs hxs.2
    refine ⟨i ++ is, .cons (hx.extend hext') hrest ?_, ?_, hext.trans hext'⟩
    · intro j hj hj'
      exact Nat.lt_irrefl _ (Nat.lt_of_lt_of_le (hx.lt_size j hj) (hfresh' j hj'))
    · intro j hj
      rcases List.mem_append.1 hj with hj | hj
      · exact hfresh j hj
      · exact Nat.le_trans hext.1 (hfresh' j hj)

theorem placeEntries_placed (s : Store) : ∀ kvs : List (Value × Value), Value.hasCycleEntries kvs = false →
    ∃ ids, EntriesHold (s.placeEntries kvs).1 (s.placeEntries kvs).2 kvs ids ∧ (∀ j ∈ ids, s.size ≤ j) ∧
      Extends s (s.placeEntries kvs).1
  | [], _ => ⟨[], .nil, by simp, .refl s⟩
  | (k, x) :: kvs, hkvs => by
    simp only [Value.hasCycleEntries, Bool.or_eq_false_iff] at hkvs
    obtain ⟨⟨i, hx, hfresh⟩, hext⟩ := place_placed s x hkvs.1.2
    obtain ⟨is, hrest, hfresh', hext'⟩ := placeEntries_placed (s.place x).1 kvs hkvs.2
    refine ⟨i ++ is, .cons (hx.extend hext') hrest ?_, ?_, hext.trans hext'⟩
    · intro j hj hj'
      exact Nat.lt_irrefl _ (Nat.lt_of_lt_of_le (hx.lt_size j hj) (hfresh' j hj'))
    · intro j hj
      rcases List.mem_append.1 hj with hj | hj
      · exact hfresh j hj
      · exact Nat.le_trans hext.1 (hfresh' j hj)
end

end Place

section Adjoin

variable {s t : Store} {y : Slot} {i j : Nat}

@[simp] theorem size_adjoin : (s.adjoin t y).1.size = s.size + t.size := by
  simp [adjoin, size]

theorem get_adjoin_left (h : j < s.size) : (s.adjoin t y).1.get j = s.get j := by
  simp only [adjoin, get, size] at h ⊢
  simp [Array.getD_eq_getD_getElem?, Array.getElem?_append_left h]

theorem get_adjoin_right (h : i < t.size) :
    (s.adjoin t y).1.get (i + s.size) = (t.get i).shift s.size := by
  simp only [adjoin, get, size] at h ⊢
  rw [Array.getD_eq_getD_getElem?, Array.getElem?_append_right (by simp), Array.getD_eq_getD_getElem?]
  simp [h]

theorem Extends.adjoin : Extends s (s.adjoin t y).1 :=
  ⟨by simp, fun _ hj => get_adjoin_left hj⟩

theorem disjoint_map_shift {a b : List Nat} (h : a.Disjoint b) (n : Nat) :
    (a.map (· + n)).Disjoint (b.map (· + n)) := by
  intro j ha hb
  obtain ⟨k, hk, rfl⟩ := List.mem_map.1 ha
  obtain ⟨k', hk', hkk⟩ := List.mem_map.1 hb
  exact h hk (Nat.add_right_cancel hkk ▸ hk')

mutual
/-- The members of the store joined after another hold what they held, their
containers moved past the other store's. -/
theorem Holds.adjoin_right {x : Slot} {v : Value} {ids : List Nat} :
    Holds t x v ids → Holds (s.adjoin t y).1 (x.shift s.size) v (ids.map (· + s.size))
  | .val hv => .val hv
  | .list hlt hget h hid => .list (by simp; omega) (by rw [get_adjoin_right hlt, hget]; rfl)
      h.adjoin_right (by simpa using hid)
  | .tuple hlt hget h hid => .tuple (by simp; omega) (by rw [get_adjoin_right hlt, hget]; rfl)
      h.adjoin_right (by simpa using hid)
  | .object hlt hget h hid => .object (by simp; omega) (by rw [get_adjoin_right hlt, hget]; rfl)
      h.adjoin_right (by simpa using hid)
  | .dict hlt hget h hid => .dict (by simp; omega) (by rw [get_adjoin_right hlt, hget]; rfl)
      h.adjoin_right (by simpa using hid)

theorem ItemsHold.adjoin_right {xs : List Slot} {vs : List Value} {ids : List Nat} :
    ItemsHold t xs vs ids →
      ItemsHold (s.adjoin t y).1 (xs.map (Slot.shift s.size)) vs (ids.map (· + s.size))
  | .nil => .nil
  | .cons h hs hd => by
    rw [List.map_cons, List.map_append]
    exact .cons h.adjoin_right hs.adjoin_right (disjoint_map_shift hd _)

theorem EntriesHold.adjoin_right {es : List (Value × Slot)} {kvs : List (Value × Value)}
    {ids : List Nat} : EntriesHold t es kvs ids →
      EntriesHold (s.adjoin t y).1 (es.map fun (k, x) => (k, x.shift s.size)) kvs
        (ids.map (· + s.size))
  | .nil => .nil
  | .cons h hs hd => by
    rw [List.map_cons, List.map_append]
    exact .cons h.adjoin_right hs.adjoin_right (disjoint_map_shift hd _)
end

end Adjoin

end Store

/-- What a configuration source stands for when it counts as false: an empty
plain mapping. -/
def Value.orEmpty (v : Value) : Value := if v.truthy then v else .dict []

namespace Doc

/-- The document holds the value as a tree. -/
def Holds (d : Doc) (v : Value) : Prop := ∃ ids, Store.Holds d.store d.root v ids

theorem cyclicCells_eq_nil {d : Doc} {v : Value} (h : d.Holds v) : d.cyclicCells = [] := by
  obtain ⟨ids, h⟩ := h
  obtain ⟨s, root⟩ := d
  cases root with
  | val => rfl
  | ref r =>
    simp only [Doc.cyclicCells]
    split
    · rfl
    · rw [List.filter_eq_nil_iff]
      intro j hj
      rw [List.mem_eraseDups, List.mem_cons] at hj
      rcases hj with rfl | hj
      · simp [h.onCycle_eq_false]
      · obtain ⟨w, idsj, hj', -⟩ := h.transGen (Store.transGen_of_mem_reachable hj)
        simp [hj'.onCycle_eq_false]

/-- Reading a document that holds a tree gives the tree. -/
theorem read_eq_of_holds {d : Doc} {v : Value} (h : d.Holds v) : d.read = v := by
  unfold Doc.read
  rw [cyclicCells_eq_nil h]
  obtain ⟨ids, h⟩ := h
  exact h.readSlot_eq [] (Nat.lt_succ_of_le h.length_le)

/-- A value without cycles, made a document, holds itself. -/
theorem ofValue_holds {v : Value} (hv : v.hasCycle = false) : (Doc.ofValue v).Holds v := by
  obtain ⟨ids, h, -⟩ := (Store.place_placed {} v hv).holds
  exact ⟨ids, h⟩

/-- A document that counts as false stands for an empty plain mapping. -/
theorem orEmpty_holds {d : Doc} {v : Value} (h : d.Holds v) : d.orEmpty.Holds v.orEmpty := by
  obtain ⟨ids, h⟩ := h
  have htruthy : d.truthy = v.truthy := h.truthy_eq
  unfold Value.orEmpty
  cases hv : v.truthy with
  | true =>
    have hd : d.orEmpty = d := by simp [Doc.orEmpty, htruthy, hv]
    rw [hd]
    exact ⟨ids, h⟩
  | false =>
    have hd : d.orEmpty = ⟨(d.store.add (.dict [])).1, .ref d.store.size⟩ := by
      simp only [Doc.orEmpty, htruthy, hv]
      rfl
    rw [hd]
    exact ⟨[d.store.size], .dict (by rw [Store.size_add]; exact Nat.lt_succ_self _) Store.get_add_self .nil
      List.not_mem_nil⟩

end Doc

end Firewall
