import Firewall.Proofs.Store.Holds
import Firewall.Proofs.Value.Layering

/-!
# Layering documents in place

`Doc.merge upper lower` lays one document over another by changing the
containers of `lower` in place.  On documents that hold trees it does what
`Value.mergeInto` does on their values (`Doc.merge_agrees`): both fail with the
same fault, or the document it gives holds the merged value.

The two runs are compared step by step (`Agree`): laying one upper entry
changes only the lower container and the containers under the entry's key,
and adds new ones (`Kept`), so the other entries, and the upper entries still
to come, hold what they held.
-/

namespace Firewall

namespace Value

/-- A configuration source: its root, when a mapping of either kind, has text
keys, each once, and trees under them. -/
def Rooted (v : Value) : Prop :=
  ∀ A, (v = .object A ∨ v = .dict A) → TextKeyed A ∧ ∀ e ∈ A, Tree e.2

theorem Tree.rooted {v : Value} (h : Tree v) : Rooted v := by
  rintro A (rfl | rfl)
  · exact ⟨h.textKeyed, fun e he => h.of_mem he⟩
  · cases h with
    | leaf h => simp [mapping?, unfold] at h

theorem rooted_dict {A : List (Value × Value)} (h : Tree (.object A)) : Rooted (.dict A) := by
  rintro B (h' | h') <;> cases h'
  exact ⟨h.textKeyed, fun e he => h.of_mem he⟩

/-- Setting a key of a source's mapping to a tree gives a source mapping again. -/
theorem rooted_setKey {A : List (Value × Value)} {key : String} {w : Value}
    (hA : TextKeyed A ∧ ∀ e ∈ A, Tree e.2) (hw : Tree w) :
    TextKeyed (setKey A (.str key) w) ∧ ∀ e ∈ setKey A (.str key) w, Tree e.2 := by
  refine ⟨hA.1.setKey, fun e he => ?_⟩
  unfold setKey at he
  split at he
  · obtain ⟨e', he', rfl⟩ := List.mem_map.1 he
    split
    · exact hw
    · exact hA.2 e' he'
  · rcases List.mem_append.1 he with he | he
    · exact hA.2 e he
    · rw [List.mem_singleton.1 he]
      exact hw

theorem rooted_mapping {mk : List (Value × Value) → Value} (hmk : mk = .object ∨ mk = .dict)
    {A : List (Value × Value)} (h : TextKeyed A ∧ ∀ e ∈ A, Tree e.2) : Rooted (mk A) := by
  rintro B hB
  rcases hmk with rfl | rfl <;> rcases hB with hB | hB <;> cases hB
  · exact h
  · exact h

theorem Rooted.mapping {mk : List (Value × Value) → Value} (hmk : mk = .object ∨ mk = .dict)
    {A : List (Value × Value)} (h : Rooted (mk A)) : TextKeyed A ∧ ∀ e ∈ A, Tree e.2 := by
  rcases hmk with rfl | rfl
  · exact h A (.inl rfl)
  · exact h A (.inr rfl)


end Value

namespace Store

section Runs

/-- A run on a store and a run on values agree: they fail with one fault, or
what they give is related by `P`. -/
def Agree {α β : Type} (P : α → β → Prop) : Except Fault α → Except Fault β → Prop
  | .error f, .error g => f = g
  | .ok a, .ok b => P a b
  | _, _ => False

variable {α β γ δ : Type} {P : α → β → Prop} {Q : γ → δ → Prop}

theorem Agree.bind {a : Except Fault α} {b : Except Fault β} {f : α → Except Fault γ}
    {g : β → Except Fault δ} (h : Agree P a b) (hk : ∀ x y, P x y → Agree Q (f x) (g y)) :
    Agree Q (a >>= f) (b >>= g) := by
  match a, b, h with
  | .error _, .error _, h => exact h
  | .ok x, .ok y, h => exact hk x y h

/-- Mapping the value of the second run, with that value at hand. -/
theorem Agree.map_right_ok {a : Except Fault α} {b : Except Fault β} {g : β → δ}
    {R : α → δ → Prop} (h : Agree P a b) (hk : ∀ x y, b = .ok y → P x y → R x (g y)) :
    Agree R a (g <$> b) := by
  match a, b, h with
  | .error _, .error _, h => exact h
  | .ok x, .ok y, h => exact hk x y rfl h

theorem Agree.mono {a : Except Fault α} {b : Except Fault β} {R : α → β → Prop} (h : Agree P a b)
    (hk : ∀ x y, P x y → R x y) : Agree R a b := by
  match a, b, h with
  | .error _, .error _, h => exact h
  | .ok x, .ok y, h => exact hk x y h

theorem agree_error (f : Fault) : Agree P (.error f : Except Fault α) (.error f : Except Fault β) := rfl

theorem Agree.ok_left {a : Except Fault α} {b : Except Fault β} {x : α} (h : Agree P a b)
    (ha : a = .ok x) : ∃ y, b = .ok y ∧ P x y := by
  subst ha
  match b, h with
  | .ok y, h => exact ⟨y, rfl, h⟩

theorem Agree.ok_right {a : Except Fault α} {b : Except Fault β} {y : β} (h : Agree P a b)
    (hb : b = .ok y) : ∃ x, a = .ok x ∧ P x y := by
  subst hb
  match a, h with
  | .ok x, h => exact ⟨x, rfl, h⟩

theorem Agree.bind_pure {a : Except Fault α} {b : Except Fault β} {g : α → γ} {R : γ → β → Prop}
    (h : Agree P a b) (hk : ∀ x y, P x y → R (g x) y) : Agree R (a >>= fun x => pure (g x)) b := by
  match a, b, h with
  | .error _, .error _, h => exact h
  | .ok x, .ok y, h => exact hk x y h

end Runs

section Kept

variable {s t u : Store} {ids ids' is : List Nat}

/-- The store `t` keeps the containers of `s` other than `ids`, and may have more. -/
def Kept (s t : Store) (ids : List Nat) : Prop :=
  s.size ≤ t.size ∧ ∀ j < s.size, j ∉ ids → t.get j = s.get j

theorem Kept.agrees (h : Kept s t ids) (hlt : ∀ j ∈ is, j < s.size) (hd : is.Disjoint ids) :
    Agrees s t is :=
  fun j hj => ⟨Nat.lt_of_lt_of_le (hlt j hj) h.1, h.2 j (hlt j hj) (fun h' => hd hj h')⟩

theorem Kept.mono (h : Kept s t ids) (hsub : ∀ j ∈ ids, j ∈ ids') : Kept s t ids' :=
  ⟨h.1, fun j hj hn => h.2 j hj (fun h' => hn (hsub j h'))⟩

theorem Kept.trans (h : Kept s t ids) (h' : Kept t u ids') (hsub : ∀ j < s.size, j ∈ ids' → j ∈ ids) :
    Kept s u ids :=
  ⟨Nat.le_trans h.1 h'.1, fun j hj hn =>
    (h'.2 j (Nat.lt_of_lt_of_le hj h.1) (fun h'' => hn (hsub j hj h''))).trans (h.2 j hj hn)⟩

theorem Extends.kept (h : Extends s t) : Kept s t ids := ⟨h.1, fun j hj _ => h.2 j hj⟩

theorem kept_put {i : Nat} {c : Cell} : Kept s (s.put i c) [i] :=
  ⟨by simp, fun _ _ hj => get_put_ne (fun h => hj (h ▸ List.mem_singleton_self _))⟩

end Kept

section Keys

/-! The lower mapping is looked up and set as the value's mapping is: both find the
first entry under the key, and with text keys, each once, that entry is the only
one. -/

variable {α : Type} {s : Store} {k k0 : Value}

theorem find?_append_cons {pre post : List (Value × α)} {x : α}
    (hpre : ∀ e ∈ pre, Value.sameKey e.1 k = false) (hk : Value.sameKey k0 k = true) :
    (pre ++ (k0, x) :: post).find? (fun e => Value.sameKey e.1 k) = some (k0, x) := by
  induction pre with
  | nil => simp [hk]
  | cons e pre ih =>
    rw [List.cons_append, List.find?_cons_of_neg (by simp [hpre e List.mem_cons_self])]
    exact ih (fun e he => hpre e (List.mem_cons_of_mem _ he))

theorem map_set_append_cons {pre post : List (Value × α)} {x y : α}
    (hpre : ∀ e ∈ pre, Value.sameKey e.1 k = false) (hk : Value.sameKey k0 k = true)
    (hpost : ∀ e ∈ post, Value.sameKey e.1 k = false) :
    (pre ++ (k0, x) :: post).map (fun e => if Value.sameKey e.1 k then (e.1, y) else e) =
      pre ++ (k0, y) :: post := by
  have hkeep : ∀ l : List (Value × α), (∀ e ∈ l, Value.sameKey e.1 k = false) →
      l.map (fun e => if Value.sameKey e.1 k then (e.1, y) else e) = l := fun l hl =>
    (List.map_congr_left fun e he => by simp [hl e he]).trans (List.map_id l)
  rw [List.map_append, List.map_cons, hkeep pre hpre, hkeep post hpost]
  simp [hk]

theorem lookupSlot_append_cons {pre post : List (Value × Slot)} {x : Slot}
    (hpre : ∀ e ∈ pre, Value.sameKey e.1 k = false) (hk : Value.sameKey k0 k = true) :
    lookupSlot (pre ++ (k0, x) :: post) k = some x := by
  simp [lookupSlot, find?_append_cons hpre hk]

theorem setSlot_append_cons {pre post : List (Value × Slot)} {x y : Slot}
    (hpre : ∀ e ∈ pre, Value.sameKey e.1 k = false) (hk : Value.sameKey k0 k = true)
    (hpost : ∀ e ∈ post, Value.sameKey e.1 k = false) :
    setSlot (pre ++ (k0, x) :: post) k y = pre ++ (k0, y) :: post := by
  have hany : (pre ++ (k0, x) :: post).any (fun e => Value.sameKey e.1 k) = true :=
    List.any_eq_true.2 ⟨(k0, x), by simp, hk⟩
  rw [setSlot, if_pos hany, map_set_append_cons hpre hk hpost]

theorem lookup_append_cons {pre post : List (Value × Value)} {c : Value}
    (hpre : ∀ e ∈ pre, Value.sameKey e.1 k = false) (hk : Value.sameKey k0 k = true) :
    Value.lookup (pre ++ (k0, c) :: post) k = some c := by
  simp [Value.lookup, find?_append_cons hpre hk]

theorem setKey_append_cons {pre post : List (Value × Value)} {c w : Value}
    (hpre : ∀ e ∈ pre, Value.sameKey e.1 k = false) (hk : Value.sameKey k0 k = true)
    (hpost : ∀ e ∈ post, Value.sameKey e.1 k = false) :
    Value.setKey (pre ++ (k0, c) :: post) k w = pre ++ (k0, w) :: post := by
  have hany : (pre ++ (k0, c) :: post).any (fun e => Value.sameKey e.1 k) = true :=
    List.any_eq_true.2 ⟨(k0, c), by simp, hk⟩
  rw [Value.setKey, if_pos hany, map_set_append_cons hpre hk hpost]

theorem EntriesHold.keys_eq {es : List (Value × Slot)} {A : List (Value × Value)} {ids : List Nat} :
    EntriesHold s es A ids → es.map (·.1) = A.map (·.1) := by
  intro h
  induction es generalizing A ids with
  | nil => cases h; rfl
  | cons e es ih =>
    cases h with
    | cons _ hs _ => rw [List.map_cons, List.map_cons, ih hs]

/-- Under a key no entry has, the lower mapping has no entry either, and setting
the key adds it last. -/
theorem lookupSlot_eq_none {es : List (Value × Slot)} (h : ∀ e ∈ es, Value.sameKey e.1 k = false) :
    lookupSlot es k = none := by
  have hfind : es.find? (fun e => Value.sameKey e.1 k) = none :=
    List.find?_eq_none.2 fun e he => by simp [h e he]
  simp [lookupSlot, hfind]

theorem setSlot_of_none {es : List (Value × Slot)} {y : Slot}
    (h : ∀ e ∈ es, Value.sameKey e.1 k = false) : setSlot es k y = es ++ [(k, y)] := by
  have hany : es.any (fun e => Value.sameKey e.1 k) = false := by
    simp only [List.any_eq_false]
    exact fun e he => by simp [h e he]
  simp [setSlot, hany]

theorem setKey_of_none {A : List (Value × Value)} {w : Value}
    (h : ∀ e ∈ A, Value.sameKey e.1 k = false) : Value.setKey A k w = A ++ [(k, w)] := by
  have hany : A.any (fun e => Value.sameKey e.1 k) = false := by
    simp only [List.any_eq_false]
    exact fun e he => by simp [h e he]
  simp [Value.setKey, hany]

theorem lookup_eq_none_of {A : List (Value × Value)} (h : ∀ e ∈ A, Value.sameKey e.1 k = false) :
    Value.lookup A k = none := by
  have hfind : A.find? (fun e => Value.sameKey e.1 k) = none :=
    List.find?_eq_none.2 fun e he => by simp [h e he]
  simp [Value.lookup, hfind]

/-- Entries keyed apart from the key in one mapping are keyed apart in the other. -/
theorem EntriesHold.sameKey_false {es : List (Value × Slot)} {A : List (Value × Value)}
    {ids : List Nat} (h : EntriesHold s es A ids) (hA : ∀ e ∈ A, Value.sameKey e.1 k = false) :
    ∀ e ∈ es, Value.sameKey e.1 k = false := by
  intro e he
  have hmem : e.1 ∈ A.map (·.1) := h.keys_eq ▸ List.mem_map_of_mem he
  obtain ⟨a, ha, hae⟩ := List.mem_map.1 hmem
  rw [← hae]
  exact hA a ha

theorem EntriesHold.append {es es' : List (Value × Slot)} {A A' : List (Value × Value)}
    {ids ids' : List Nat} :
    EntriesHold s es A ids → EntriesHold s es' A' ids' → ids.Disjoint ids' →
      EntriesHold s (es ++ es') (A ++ A') (ids ++ ids')
  | .nil, h', _ => h'
  | .cons hx hs hd, h', hdisj => by
    rw [List.cons_append, List.cons_append, List.append_assoc]
    refine .cons hx (hs.append h' (fun _ ha hb => hdisj (List.mem_append_right _ ha) hb)) ?_
    intro j hj hj'
    rcases List.mem_append.1 hj' with hj' | hj'
    · exact hd hj hj'
    · exact hdisj (List.mem_append_left _ hj) hj'

/-- The entries of a mapping taken apart at the position of one of its entries. -/
theorem EntriesHold.split {k : Value} {c : Value} :
    ∀ {preA postA : List (Value × Value)} {es : List (Value × Slot)} {ids : List Nat},
      EntriesHold s es (preA ++ (k, c) :: postA) ids →
      ∃ pre x post ipre ic ipost, es = pre ++ (k, x) :: post ∧ ids = ipre ++ (ic ++ ipost) ∧
        EntriesHold s pre preA ipre ∧ Holds s x c ic ∧ EntriesHold s post postA ipost ∧
        ipre.Disjoint (ic ++ ipost) ∧ ic.Disjoint ipost
  | [], _, _, _, .cons hx hs hd =>
    ⟨[], _, _, [], _, _, rfl, rfl, .nil, hx, hs, by simp, hd⟩
  | _ :: preA, _, _, _, .cons hx hs hd => by
    obtain ⟨pre, x, post, ipre, ic, ipost, rfl, rfl, hpre, hxc, hpost, hd1, hd2⟩ := hs.split
    refine ⟨_ :: pre, x, post, _ ++ ipre, ic, ipost, rfl, by simp, .cons hx hpre ?_, hxc, hpost,
      ?_, hd2⟩
    · exact fun _ ha hb => hd ha (List.mem_append_left _ hb)
    · intro j hj hj'
      rcases List.mem_append.1 hj with hj | hj
      · exact hd hj (List.mem_append_right _ hj')
      · exact hd1 hj hj'

/-- An entry keyed by another text than the key is apart from it. -/
theorem sameKey_false_of_ne {e : Value × α} {a key : String} (he : e.1 = .str a) (hne : a ≠ key) :
    Value.sameKey e.1 (.str key) = false := by
  rw [he]
  simpa using hne

theorem sameKey_false_of_not_mem {A : List (Value × Value)} {key : String}
    (htext : ∀ e ∈ A, ∃ a, e.1 = .str a) (hk : key ∉ Value.keyTexts A) :
    ∀ e ∈ A, Value.sameKey e.1 (.str key) = false := by
  intro e he
  obtain ⟨a, ha⟩ := htext e he
  refine sameKey_false_of_ne ha fun h => hk ?_
  exact List.mem_filterMap.2 ⟨e, he, by rw [ha, h]⟩

/-- A mapping with text keys, each once, taken apart at a key it has: no other
entry has the key. -/
theorem TextKeyed.split {A : List (Value × Value)} {key : String} (hA : Value.TextKeyed A)
    (hk : key ∈ Value.keyTexts A) :
    ∃ preA c postA, A = preA ++ (.str key, c) :: postA ∧
      (∀ e ∈ preA, Value.sameKey e.1 (.str key) = false) ∧
      (∀ e ∈ postA, Value.sameKey e.1 (.str key) = false) := by
  obtain ⟨e, he, hek⟩ := List.mem_filterMap.1 hk
  obtain ⟨k, c⟩ := e
  have hkey : k = .str key := by
    obtain ⟨a, ha⟩ := hA.1 _ he
    cases ha
    simpa using hek
  subst hkey
  obtain ⟨preA, postA, rfl⟩ := List.append_of_mem he
  have hnodup := hA.2
  rw [Value.keyTexts_append, Value.keyTexts_cons_str, List.nodup_append, List.nodup_cons] at hnodup
  obtain ⟨-, ⟨hpost, -⟩, hsep⟩ := hnodup
  refine ⟨preA, c, postA, rfl, ?_, ?_⟩
  · exact sameKey_false_of_not_mem (fun e he => hA.1 e (by simp [he]))
      (fun h => hsep _ h _ List.mem_cons_self rfl)
  · exact sameKey_false_of_not_mem (fun e he => hA.1 e (by simp [he])) hpost

/-- Setting a key of a mapping with text keys to a member apart from the
mapping's containers. -/
theorem EntriesHold.set {es : List (Value × Slot)} {A : List (Value × Value)} {iE : List Nat}
    (hE : EntriesHold s es A iE) (hA : Value.TextKeyed A) {key : String} {y : Slot} {w : Value}
    {iy : List Nat} (hy : Holds s y w iy) (hd : iy.Disjoint iE) :
    ∃ ids, EntriesHold s (setSlot es (.str key) y) (Value.setKey A (.str key) w) ids ∧
      ∀ j ∈ ids, j ∈ iE ∨ j ∈ iy := by
  by_cases hk : key ∈ Value.keyTexts A
  · obtain ⟨preA, c, postA, rfl, hpreA, hpostA⟩ := TextKeyed.split hA hk
    obtain ⟨pre, x, post, ipre, ic, ipost, rfl, rfl, hpre, -, hpost, hd1, hd2⟩ := hE.split
    rw [setSlot_append_cons (hpre.sameKey_false hpreA) (by simp) (hpost.sameKey_false hpostA),
      setKey_append_cons hpreA (by simp) hpostA]
    refine ⟨ipre ++ (iy ++ ipost), hpre.append (.cons hy hpost ?_) ?_, ?_⟩
    · exact fun _ ha hb => hd ha (by simp [hb])
    · intro j hj hj'
      rcases List.mem_append.1 hj' with hj' | hj'
      · exact hd hj' (by simp [hj])
      · exact hd1 hj (by simp [hj'])
    · intro j hj
      simp only [List.mem_append] at hj ⊢
      tauto
  · have hnone := sameKey_false_of_not_mem hA.1 hk
    rw [setSlot_of_none (hE.sameKey_false hnone), setKey_of_none hnone]
    refine ⟨iE ++ (iy ++ []), hE.append (.cons hy .nil (by simp)) ?_, ?_⟩
    · exact fun _ ha hb => hd (by simpa using hb) ha
    · intro j hj
      simp only [List.mem_append, List.append_nil] at hj
      exact hj

end Keys


end Store

namespace Value

/-- One upper entry laid over a value, as `mergeEntries` lays it before the rest:
an ordered mapping is merged into the entry under its key, anything else is
assigned. -/
def layEntry (L : Value) : Value × Value → Except Fault Value
  | (k, .object inner) =>
    match L with
    | .object kvs => (fun m => .object (setKey kvs k m)) <$> mergeEntries inner ((lookup kvs k).getD (.object []))
    | .dict kvs => (fun m => .dict (setKey kvs k m)) <$> mergeEntries inner ((lookup kvs k).getD (.object []))
    | t => .error (.noAttribute t.typeName "setdefault")
  | (k, v) => assign L k v

theorem mergeEntries_cons (e : Value × Value) (rest : List (Value × Value)) (L : Value) :
    mergeEntries (e :: rest) L = layEntry L e >>= mergeEntries rest := by
  obtain ⟨k, v⟩ := e
  cases v with
  | object inner =>
    cases L with
    | object kvs =>
      show (mergeEntries inner ((lookup kvs k).getD (.object [])) >>= fun m =>
          mergeEntries rest (.object (setKey kvs k m))) =
        ((fun m => Value.object (setKey kvs k m)) <$>
          mergeEntries inner ((lookup kvs k).getD (.object []))) >>= mergeEntries rest
      cases mergeEntries inner ((lookup kvs k).getD (.object [])) <;> rfl
    | dict kvs =>
      show (mergeEntries inner ((lookup kvs k).getD (.object [])) >>= fun m =>
          mergeEntries rest (.dict (setKey kvs k m))) =
        ((fun m => Value.dict (setKey kvs k m)) <$>
          mergeEntries inner ((lookup kvs k).getD (.object []))) >>= mergeEntries rest
      cases mergeEntries inner ((lookup kvs k).getD (.object [])) <;> rfl
    | _ => rfl
  | _ => rfl

/-- Laying a tree over a tree gives a tree. -/
theorem mergeEntries_tree {inner : List (Value × Value)} {c m : Value} (hv : Tree (.object inner))
    (hc : Tree c) (h : mergeEntries inner c = .ok m) : Tree m := by
  have hchild := (childLayered_of_tree hv (some c) (fun w hw => by cases hw; exact hc)).2 (some m)
    (by rw [mergeChild_object, Option.getD_some, h]; rfl)
  exact hchild.2 m rfl

theorem layEntry_plain {L v : Value} (k : Value) (hv : ∀ inner, v ≠ .object inner) :
    layEntry L (k, v) = assign L k v := by
  cases v with
  | object inner => exact absurd rfl (hv inner)
  | _ => rfl

theorem assign_inline {w : Value} (hw : Store.Inline w) (k v : Value) :
    assign w k v = .error (.noItemAssignment w.typeName) := by
  obtain ⟨hmap, hlist⟩ := hw
  cases w with
  | object | dict => simp [mapping?, unfold] at hmap
  | list xs => exact absurd rfl (hlist xs)
  | _ => rfl

theorem layEntry_object_inline {w : Value} (hw : Store.Inline w) (k : Value) (inner : List (Value × Value)) :
    layEntry w (k, .object inner) = .error (.noAttribute w.typeName "setdefault") := by
  obtain ⟨hmap, -⟩ := hw
  cases w with
  | object | dict => simp [mapping?, unfold] at hmap
  | _ => rfl

end Value

namespace Store

section Steps

open Value

variable {s : Store}

/-- One entry of the upper mapping laid over `lower`, as `Store.mergeInto` lays it. -/
def mergeStep (fuel : Nat) (lower : Slot) (s : Store) : Value × Slot → Except Fault Store
  | (k, x) =>
    if s.isOrdered x then do
      let (s, node) ← s.setdefault lower k
      mergeInto fuel s x node
    else s.assign lower k x

theorem mergeInto_succ (fuel : Nat) (s : Store) (upper lower : Slot) :
    s.mergeInto (fuel + 1) upper lower =
      s.items upper >>= fun es => es.foldlM (mergeStep fuel lower) s := rfl

/-- What laying upper entries with containers `iU` over the member `lower`, with
containers `iL`, of `s` leaves: in `t`, `lower` holds `r` through containers of
its own, of the upper entries or new; `t` keeps every other container of `s`;
and `r` is a source. -/
def Laid (s : Store) (lower : Slot) (iL iU : List Nat) (t : Store) (r : Value) : Prop :=
  (∃ ids, Holds t lower r ids ∧ ∀ j ∈ ids, j ∈ iL ∨ j ∈ iU ∨ s.size ≤ j) ∧ Kept s t (iL ++ iU) ∧
    Rooted r

theorem Holds.isOrdered_object {x : Slot} {inner : List (Value × Value)} {i : List Nat}
    (h : Holds s x (.object inner) i) : s.isOrdered x = true := by
  cases h with
  | val hv => simp [Inline, mapping?, unfold] at hv
  | object _ hget _ _ => simp [isOrdered, hget]

theorem Holds.isOrdered_of_ne {x : Slot} {v : Value} {i : List Nat} (h : Holds s x v i)
    (hv : ∀ inner, v ≠ .object inner) : s.isOrdered x = false := by
  cases h with
  | val => rfl
  | list _ hget _ _ | tuple _ hget _ _ | dict _ hget _ _ => simp [isOrdered, hget]
  | object => exact absurd rfl (hv _)

/-- A mapping container of either kind, as the lower member of a step. -/
theorem Holds.mapping {cmk : List (Value × Slot) → Cell} {vmk : List (Value × Value) → Value}
    (hmk : (cmk = .object ∧ vmk = .object) ∨ (cmk = .dict ∧ vmk = .dict)) {id : Nat}
    {es : List (Value × Slot)} {A : List (Value × Value)} {ids : List Nat} (hlt : id < s.size)
    (hget : s.get id = cmk es) (h : EntriesHold s es A ids) (hid : id ∉ ids) :
    Holds s (.ref id) (vmk A) (id :: ids) := by
  rcases hmk with ⟨rfl, rfl⟩ | ⟨rfl, rfl⟩
  · exact .object hlt hget h hid
  · exact .dict hlt hget h hid

theorem vmk_cases {cmk : List (Value × Slot) → Cell} {vmk : List (Value × Value) → Value}
    (hmk : (cmk = .object ∧ vmk = .object) ∨ (cmk = .dict ∧ vmk = .dict)) :
    vmk = .object ∨ vmk = .dict :=
  hmk.imp (·.2) (·.2)

/-- Assigning an upper entry that is no ordered mapping into a lower mapping. -/
theorem assign_mapping_agree {cmk : List (Value × Slot) → Cell} {vmk : List (Value × Value) → Value}
    (hmk : (cmk = .object ∧ vmk = .object) ∨ (cmk = .dict ∧ vmk = .dict)) {id : Nat}
    {es : List (Value × Slot)} {A : List (Value × Value)} {iE i : List Nat} {x : Slot} {v : Value}
    {key : String} (hlt : id < s.size) (hget : s.get id = cmk es) (hE : EntriesHold s es A iE)
    (hid : id ∉ iE) (hA : TextKeyed A ∧ ∀ e ∈ A, Tree e.2) (hx : Holds s x v i) (hv : Tree v)
    (hd : i.Disjoint (id :: iE)) :
    Agree (Laid s (.ref id) (id :: iE) i) (s.assign (.ref id) (.str key) x)
      (Value.assign (vmk A) (.str key) v) := by
  have hstore : s.assign (.ref id) (.str key) x = .ok (s.put id (cmk (setSlot es (.str key) x))) := by
    rcases hmk with ⟨rfl, rfl⟩ | ⟨rfl, rfl⟩ <;> simp [Store.assign, hget]
  have hval : Value.assign (vmk A) (.str key) v = .ok (vmk (setKey A (.str key) v)) := by
    rcases hmk with ⟨rfl, rfl⟩ | ⟨rfl, rfl⟩ <;> rfl
  rw [hstore, hval]
  -- only the lower container changes, so its entries and the upper entry stay
  have hkept : Kept s (s.put id (cmk (setSlot es (.str key) x))) [id] := kept_put
  have hidx : id ∉ i := fun h => hd h List.mem_cons_self
  have hE' := hE.transport (hkept.agrees hE.lt_size (fun _ ha hb => hid (by simp at hb; exact hb ▸ ha)))
  have hx' := hx.transport (hkept.agrees hx.lt_size (fun _ ha hb => hidx (by simp at hb; exact hb ▸ ha)))
  obtain ⟨ids, hset, hsub⟩ := hE'.set hA.1 hx' (fun _ ha hb => hd ha (List.mem_cons_of_mem _ hb))
  refine ⟨⟨id :: ids, Holds.mapping hmk (by simpa using hlt) (get_put_self hlt) hset ?_, ?_⟩,
    hkept.mono (by simp), rooted_mapping (vmk_cases hmk) (rooted_setKey hA hv)⟩
  · intro h
    rcases hsub id h with h | h
    · exact hid h
    · exact hidx h
  · intro j hj
    rcases List.mem_cons.1 hj with rfl | hj
    · exact .inl List.mem_cons_self
    · rcases hsub j hj with h | h
      · exact .inl (List.mem_cons_of_mem _ h)
      · exact .inr (.inl h)

/-- Assigning an upper entry that is no ordered mapping, over any lower member. -/
theorem assign_agree {lower x : Slot} {L v : Value} {iL i : List Nat} {key : String}
    (hL : Holds s lower L iL) (hLr : Rooted L) (hx : Holds s x v i) (hv : Tree v)
    (hd : i.Disjoint iL) :
    Agree (Laid s lower iL i) (s.assign lower (.str key) x) (Value.assign L (.str key) v) := by
  cases hL with
  | val hw =>
    rw [assign_inline hw]
    rfl
  | list _ hget _ _ => simp [Store.assign, hget, Value.assign, listIndex, Agree]
  | tuple _ hget _ _ =>
    simp only [Store.assign, hget, Value.assign]
    rfl
  | object hlt hget hE hid =>
    exact assign_mapping_agree (.inl ⟨rfl, rfl⟩) hlt hget hE hid (Rooted.mapping (.inl rfl) hLr) hx hv hd
  | dict hlt hget hE hid =>
    exact assign_mapping_agree (.inr ⟨rfl, rfl⟩) hlt hget hE hid (Rooted.mapping (.inr rfl) hLr) hx hv hd

theorem Laid.mono {lower : Slot} {iL iU iU' : List Nat} {t : Store} {r : Value}
    (h : Laid s lower iL iU t r) (hsub : ∀ j ∈ iU, j ∈ iU') : Laid s lower iL iU' t r := by
  obtain ⟨⟨ids, hr, hids⟩, hkept, hroot⟩ := h
  refine ⟨⟨ids, hr, fun j hj => ?_⟩, hkept.mono ?_, hroot⟩
  · rcases hids j hj with h | h | h
    · exact .inl h
    · exact .inr (.inl (hsub j h))
    · exact .inr (.inr h)
  · intro j hj
    rcases List.mem_append.1 hj with h | h
    · exact List.mem_append_left _ h
    · exact List.mem_append_right _ (hsub j h)

/-- Upper entries laid over what earlier ones left: a laying of both, over the
first store, whose new containers are those of either laying. -/
theorem Laid.trans {lower : Slot} {iL i is ir : List Nat} {t u : Store} {r : Value}
    (hsub : ∀ j ∈ ir, j ∈ iL ∨ j ∈ i ∨ s.size ≤ j) (hkept : Kept s t (iL ++ i))
    (h : Laid t lower ir is u r) : Laid s lower iL (i ++ is) u r := by
  obtain ⟨⟨i2, h2, hsub2⟩, hkept2, hroot2⟩ := h
  refine ⟨⟨i2, h2, fun j hj => ?_⟩, (hkept.mono ?_).trans hkept2 ?_, hroot2⟩
  · rcases hsub2 j hj with h | h | h
    · rcases hsub j h with h | h | h
      · exact .inl h
      · exact .inr (.inl (List.mem_append_left _ h))
      · exact .inr (.inr h)
    · exact .inr (.inl (List.mem_append_right _ h))
    · exact .inr (.inr (Nat.le_trans hkept.1 h))
  · intro j hj
    simp only [List.mem_append] at hj ⊢
    tauto
  · intro j hj h
    rcases List.mem_append.1 h with h | h
    · rcases hsub j h with h | h | h
      · exact List.mem_append_left _ h
      · exact List.mem_append_right _ (List.mem_append_left _ h)
      · exact absurd hj (Nat.not_lt_of_le h)
    · exact List.mem_append_right _ (List.mem_append_right _ h)

/-- Laying in place within `fuel` levels of ordered mappings agrees with laying
the values, for every upper and lower source that hold trees in the store apart
from each other, when the upper one has fewer containers than levels. -/
def LaysWithin (fuel : Nat) : Prop :=
  ∀ {s : Store} {upper lower : Slot} {U L : Value} {iU iL : List Nat},
    Holds s upper U iU → Rooted U → Holds s lower L iL → Rooted L → iU.Disjoint iL →
      iU.length < fuel → Agree (Laid s lower iL iU) (s.mergeInto fuel upper lower) (Value.mergeInto U L)

theorem setdefault_some {cmk : List (Value × Slot) → Cell} {vmk : List (Value × Value) → Value}
    (hmk : (cmk = .object ∧ vmk = .object) ∨ (cmk = .dict ∧ vmk = .dict)) {id : Nat}
    {es : List (Value × Slot)} {k : Value} {x : Slot} (hget : s.get id = cmk es)
    (h : lookupSlot es k = some x) : s.setdefault (.ref id) k = .ok (s, x) := by
  rcases hmk with ⟨rfl, rfl⟩ | ⟨rfl, rfl⟩ <;> simp [setdefault, hget, h]

theorem setdefault_none {cmk : List (Value × Slot) → Cell} {vmk : List (Value × Value) → Value}
    (hmk : (cmk = .object ∧ vmk = .object) ∨ (cmk = .dict ∧ vmk = .dict)) {id : Nat}
    {es : List (Value × Slot)} {k : Value} (hget : s.get id = cmk es) (h : lookupSlot es k = none) :
    s.setdefault (.ref id) k =
      .ok ((s.add (.object [])).1.put id (cmk (es ++ [(k, .ref s.size)])), .ref s.size) := by
  rcases hmk with ⟨rfl, rfl⟩ | ⟨rfl, rfl⟩ <;> simp [setdefault, hget, h]

/-- A container of the old store in neither of two lists is not among the
containers made of those lists and new ones. -/
theorem not_mem_of_sub {z x y : List Nat} {n a : Nat} (ha : a < n) (hx : a ∉ x) (hy : a ∉ y)
    (hz : ∀ j ∈ z, j ∈ x ∨ j ∈ y ∨ n ≤ j) : a ∉ z := by
  intro h
  rcases hz a h with h | h | h
  · exact hx h
  · exact hy h
  · exact Nat.lt_irrefl _ (Nat.lt_of_lt_of_le ha h)

/-- Containers of the old store apart from two lists are apart from anything
made of those lists and new containers. -/
theorem disjoint_of_sub {a z x y : List Nat} {n : Nat} (ha : ∀ j ∈ a, j < n) (hx : a.Disjoint x)
    (hy : a.Disjoint y) (hz : ∀ j ∈ z, j ∈ x ∨ j ∈ y ∨ n ≤ j) : a.Disjoint z :=
  fun j hja => not_mem_of_sub (ha j hja) (hx hja) (hy hja) hz

/-- The entries around one entry, carried to a store that agrees on their
containers, with another member in its place. -/
theorem EntriesHold.replace {t : Store} {pre post : List (Value × Slot)}
    {preA postA : List (Value × Value)} {ipre ipost iy : List Nat} {k : Value} {y : Slot} {w : Value}
    (hpre : EntriesHold s pre preA ipre) (hpost : EntriesHold s post postA ipost)
    (hd : ipre.Disjoint ipost) (ht : Agrees s t (ipre ++ ipost)) (hy : Holds t y w iy)
    (hdy : iy.Disjoint (ipre ++ ipost)) :
    EntriesHold t (pre ++ (k, y) :: post) (preA ++ (k, w) :: postA) (ipre ++ (iy ++ ipost)) := by
  refine (hpre.transport ht.left).append (.cons hy (hpost.transport ht.right) ?_) ?_
  · exact fun _ ha hb => hdy ha (List.mem_append_right _ hb)
  · intro j hj hj'
    rcases List.mem_append.1 hj' with h | h
    · exact hdy h (List.mem_append_left _ hj)
    · exact hd hj h

theorem layEntry_mapping {mk : List (Value × Value) → Value} (hmk : mk = .object ∨ mk = .dict)
    {A inner : List (Value × Value)} {k : Value} :
    layEntry (mk A) (k, .object inner) =
      (fun m => mk (setKey A k m)) <$> mergeEntries inner ((lookup A k).getD (.object [])) := by
  rcases hmk with rfl | rfl <;> rfl

theorem mergeStep_ordered {f : Nat} {lower x : Slot} {k : Value} {inner : List (Value × Value)}
    {i : List Nat} (hx : Holds s x (.object inner) i) :
    mergeStep f lower s (k, x) = s.setdefault lower k >>= fun r => r.1.mergeInto f x r.2 := by
  simp only [mergeStep, hx.isOrdered_object, if_true]

section Ordered

variable {f : Nat} {cmk : List (Value × Slot) → Cell} {vmk : List (Value × Value) → Value}
  {id : Nat} {es : List (Value × Slot)} {A inner : List (Value × Value)} {iE i : List Nat}
  {x : Slot} {key : String}

/-- The lower mapping after an upper entry is laid under one of its keys: it
holds its new entries through containers of its own, of the upper entry, or new. -/
theorem laid_of_entries (hmk : (cmk = .object ∧ vmk = .object) ∨ (cmk = .dict ∧ vmk = .dict))
    {t : Store} {es' : List (Value × Slot)} {A' : List (Value × Value)} {ids : List Nat}
    (hlt : id < t.size) (hget : t.get id = cmk es') (hE : EntriesHold t es' A' ids) (hid : id ∉ ids)
    (hsub : ∀ j ∈ ids, j ∈ iE ∨ j ∈ i ∨ s.size ≤ j) (hkept : Kept s t ((id :: iE) ++ i))
    (hroot : TextKeyed A' ∧ ∀ e ∈ A', Tree e.2) : Laid s (.ref id) (id :: iE) i t (vmk A') := by
  refine ⟨⟨id :: ids, Holds.mapping hmk hlt hget hE hid, fun j hj => ?_⟩, hkept,
    rooted_mapping (vmk_cases hmk) hroot⟩
  rcases List.mem_cons.1 hj with rfl | hj
  · exact .inl List.mem_cons_self
  · rcases hsub j hj with h | h | h
    · exact .inl (List.mem_cons_of_mem _ h)
    · exact .inr (.inl h)
    · exact .inr (.inr h)

/-- Merging an upper ordered mapping into the entry under its key, which the
lower mapping has. -/
theorem merge_present_agree (ih : LaysWithin f)
    (hmk : (cmk = .object ∧ vmk = .object) ∨ (cmk = .dict ∧ vmk = .dict))
    (hlt : id < s.size) (hget : s.get id = cmk es) (hE : EntriesHold s es A iE) (hid : id ∉ iE)
    (hA : TextKeyed A ∧ ∀ e ∈ A, Tree e.2) (hk : key ∈ keyTexts A)
    (hx : Holds s x (.object inner) i) (hv : Tree (.object inner)) (hd : i.Disjoint (id :: iE))
    (hlen : i.length < f) :
    Agree (Laid s (.ref id) (id :: iE) i) (mergeStep f (.ref id) s (.str key, x))
      (layEntry (vmk A) (.str key, .object inner)) := by
  obtain ⟨preA, c, postA, rfl, hpreA, hpostA⟩ := TextKeyed.split hA.1 hk
  obtain ⟨pre, x0, post, ipre, ic, ipost, rfl, rfl, hpre, hx0, hpost, hd1, hd2⟩ := hE.split
  have hlook : lookupSlot (pre ++ (.str key, x0) :: post) (.str key) = some x0 :=
    lookupSlot_append_cons (hpre.sameKey_false hpreA) (by simp)
  have hset : ∀ m, setKey (preA ++ (.str key, c) :: postA) (.str key) m = preA ++ (.str key, m) :: postA :=
    fun m => setKey_append_cons hpreA (by simp) hpostA
  rw [mergeStep_ordered hx, setdefault_some hmk hget hlook, layEntry_mapping (vmk_cases hmk),
    lookup_append_cons hpreA (by simp), Option.getD_some]
  simp only [hset]
  have hc : Tree c := hA.2 (.str key, c) (by simp)
  have hdc : i.Disjoint ic := fun _ ha hb => hd ha (by simp [hb])
  -- the entry is merged in place, by the nesting below
  refine (ih hx hv.rooted hx0 hc.rooted hdc hlen).map_right_ok fun t m hm hlaid => ?_
  obtain ⟨⟨im, hxm, hsubm⟩, hkept, -⟩ := hlaid
  have hrest : ∀ j ∈ ipre ++ ipost, j < s.size := fun j hj =>
    (List.mem_append.1 hj).elim (hpre.lt_size j) (hpost.lt_size j)
  have hdi : (ipre ++ ipost).Disjoint i := fun _ ha hb => hd hb (by simp at ha ⊢; tauto)
  have hdic : (ipre ++ ipost).Disjoint ic := by
    intro j ha hb
    rcases List.mem_append.1 ha with h | h
    · exact hd1 h (List.mem_append_left _ hb)
    · exact hd2 hb h
  have hdm : (ipre ++ ipost).Disjoint im := disjoint_of_sub hrest hdic hdi hsubm
  have hidc : id ∉ ic ++ i := fun h => (List.mem_append.1 h).elim (fun h => hid (by simp [h]))
    (fun h => hd h List.mem_cons_self)
  have hentries := hpre.replace hpost (fun _ ha hb => hd1 ha (List.mem_append_right _ hb))
    (hkept.agrees hrest (fun j ha hb => (List.mem_append.1 hb).elim (hdic ha) (hdi ha))) hxm
    (fun j ha hb => hdm hb ha) (k := .str key)
  have hidm : id ∉ im := not_mem_of_sub hlt (fun h => hidc (List.mem_append_left _ h))
    (fun h => hidc (List.mem_append_right _ h)) hsubm
  have hroot : TextKeyed (setKey (preA ++ (.str key, c) :: postA) (.str key) m) ∧
      ∀ e ∈ setKey (preA ++ (.str key, c) :: postA) (.str key) m, Tree e.2 :=
    rooted_setKey hA (mergeEntries_tree hv hc hm)
  rw [hset] at hroot
  refine laid_of_entries hmk (Nat.lt_of_lt_of_le hlt hkept.1) ((hkept.2 id hlt hidc).trans hget)
    hentries ?_ ?_ (hkept.mono ?_) hroot
  · simp only [List.mem_append, not_or]
    exact ⟨fun h => hid (by simp [h]), hidm, fun h => hid (by simp [h])⟩
  · -- the merged entry's containers: the old entry's, the upper entry's, or new
    intro j hj
    simp only [List.mem_append] at hj ⊢
    rcases hj with h | h | h
    · exact .inl (.inl h)
    · rcases hsubm j h with h | h | h
      · exact .inl (.inr (.inl h))
      · exact .inr (.inl h)
      · exact .inr (.inr h)
    · exact .inl (.inr (.inr h))
  · intro j hj
    simp only [List.mem_cons, List.mem_append] at hj ⊢
    tauto

/-- Merging an upper ordered mapping under a key the lower mapping lacks: into a
new empty ordered mapping, put last under the key. -/
theorem merge_absent_agree (ih : LaysWithin f)
    (hmk : (cmk = .object ∧ vmk = .object) ∨ (cmk = .dict ∧ vmk = .dict))
    (hlt : id < s.size) (hget : s.get id = cmk es) (hE : EntriesHold s es A iE) (hid : id ∉ iE)
    (hA : TextKeyed A ∧ ∀ e ∈ A, Tree e.2) (hk : key ∉ keyTexts A)
    (hx : Holds s x (.object inner) i) (hv : Tree (.object inner)) (hd : i.Disjoint (id :: iE))
    (hlen : i.length < f) :
    Agree (Laid s (.ref id) (id :: iE) i) (mergeStep f (.ref id) s (.str key, x))
      (layEntry (vmk A) (.str key, .object inner)) := by
  have hnone := sameKey_false_of_not_mem hA.1.1 hk
  have hlook : lookupSlot es (.str key) = none := lookupSlot_eq_none (hE.sameKey_false hnone)
  rw [mergeStep_ordered hx, setdefault_none hmk hget hlook, layEntry_mapping (vmk_cases hmk),
    lookup_eq_none_of hnone, Option.getD_none]
  simp only [setKey_of_none hnone]
  -- the new empty mapping, and the upper entry carried over
  have hk1 : Kept s ((s.add (.object [])).1.put id (cmk (es ++ [(.str key, .ref s.size)]))) [id] :=
    (Extends.add s (.object [])).kept.trans kept_put (fun _ _ h => h)
  have hidx : id ∉ i := fun h => hd h List.mem_cons_self
  have hx1 := hx.transport (hk1.agrees hx.lt_size (fun _ ha hb => hidx (by simp at hb; exact hb ▸ ha)))
  have hnew : Holds ((s.add (.object [])).1.put id (cmk (es ++ [(.str key, .ref s.size)])))
      (.ref s.size) (.object []) [s.size] :=
    .object (by simp) (by rw [get_put_ne (Nat.ne_of_gt hlt), get_add_self]) .nil List.not_mem_nil
  have hdn : i.Disjoint [s.size] := fun j ha hb => by
    simp only [List.mem_singleton] at hb
    exact Nat.lt_irrefl _ (hb ▸ hx.lt_size j ha)
  have hempty : Tree (.object []) := Tree.object TextKeyed.nil (by simp)
  refine (ih hx1 hv.rooted hnew hempty.rooted hdn hlen).map_right_ok fun t m hm hlaid => ?_
  obtain ⟨⟨im, hxm, hsubm⟩, hkept, -⟩ := hlaid
  have hkt : Kept s t (id :: i) := (hk1.mono (by simp)).trans hkept fun j hj h => by
    rcases List.mem_append.1 h with h | h
    · simp only [List.mem_singleton] at h
      exact absurd (h ▸ hj) (Nat.lt_irrefl _)
    · exact List.mem_cons_of_mem _ h
  have hidn : id ∉ [s.size] ++ i := by
    simp only [List.mem_append, List.mem_singleton, not_or]
    exact ⟨Nat.ne_of_lt hlt, hidx⟩
  have hgett : t.get id = cmk (es ++ [(.str key, .ref s.size)]) :=
    (hkept.2 id (by simp; omega) hidn).trans (get_put_self (by simp; omega))
  have hE' := hE.transport (hkt.agrees hE.lt_size fun j ha hb => by
    rcases List.mem_cons.1 hb with rfl | hb
    · exact hid ha
    · exact hd hb (List.mem_cons_of_mem _ ha))
  have hdm : iE.Disjoint im := disjoint_of_sub hE.lt_size
    (fun _ ha hb => hd hb (List.mem_cons_of_mem _ ha)) (y := [s.size])
    (fun j ha hb => by simp only [List.mem_singleton] at hb; exact Nat.lt_irrefl _ (hb ▸ hE.lt_size j ha))
    (fun j hj => by
      rcases hsubm j hj with h | h | h
      · exact .inr (.inl h)
      · exact .inl h
      · exact .inr (.inr (by simp at h; omega)))
  have hidm : id ∉ im := not_mem_of_sub (by simp; omega) (fun h => hidn (List.mem_append_left _ h))
    hidx hsubm
  have hentries : EntriesHold t (es ++ [(.str key, .ref s.size)]) (A ++ [(.str key, m)])
      (iE ++ (im ++ [])) :=
    hE'.append (.cons hxm .nil (by simp)) (fun _ ha hb => hdm ha (by simpa using hb))
  have hroot : TextKeyed (setKey A (.str key) m) ∧ ∀ e ∈ setKey A (.str key) m, Tree e.2 :=
    rooted_setKey hA (mergeEntries_tree hv hempty hm)
  rw [setKey_of_none hnone] at hroot
  refine laid_of_entries hmk (by have := hkept.1; simp at this; omega) hgett hentries ?_ ?_
    (hkt.mono ?_) hroot
  · simp only [List.append_nil, List.mem_append, not_or]
    exact ⟨hid, hidm⟩
  · -- the new entry's containers: the new empty mapping, the upper entry's, or new
    intro j hj
    simp only [List.append_nil, List.mem_append] at hj
    rcases hj with h | h
    · exact .inl h
    · rcases hsubm j h with h | h | h
      · simp only [List.mem_singleton] at h
        exact .inr (.inr (Nat.le_of_eq h.symm))
      · exact .inr (.inl h)
      · exact .inr (.inr (by simp at h; omega))
  · intro j hj
    simp only [List.mem_cons, List.mem_append] at hj ⊢
    tauto

/-- An upper ordered mapping over a lower mapping of either kind: merged into the
entry under its key, or into a new one. -/
theorem merge_ordered_agree (ih : LaysWithin f)
    (hmk : (cmk = .object ∧ vmk = .object) ∨ (cmk = .dict ∧ vmk = .dict))
    (hlt : id < s.size) (hget : s.get id = cmk es) (hE : EntriesHold s es A iE) (hid : id ∉ iE)
    (hA : TextKeyed A ∧ ∀ e ∈ A, Tree e.2)
    (hx : Holds s x (.object inner) i) (hv : Tree (.object inner)) (hd : i.Disjoint (id :: iE))
    (hlen : i.length < f) :
    Agree (Laid s (.ref id) (id :: iE) i) (mergeStep f (.ref id) s (.str key, x))
      (layEntry (vmk A) (.str key, .object inner)) := by
  by_cases hk : key ∈ keyTexts A
  · exact merge_present_agree ih hmk hlt hget hE hid hA hk hx hv hd hlen
  · exact merge_absent_agree ih hmk hlt hget hE hid hA hk hx hv hd hlen

end Ordered

/-- One upper entry laid over any lower member, within the levels left. -/
theorem step_agree {f : Nat} (ih : LaysWithin f) {lower x : Slot} {L v : Value} {iL i : List Nat}
    {key : String} (hL : Holds s lower L iL) (hLr : Rooted L) (hx : Holds s x v i) (hv : Tree v)
    (hd : i.Disjoint iL) (hlen : i.length < f) :
    Agree (Laid s lower iL i) (mergeStep f lower s (.str key, x)) (layEntry L (.str key, v)) := by
  by_cases hobj : ∃ inner, v = .object inner
  · obtain ⟨inner, rfl⟩ := hobj
    rw [mergeStep_ordered hx]
    cases hL with
    | val hw =>
      rw [layEntry_object_inline hw]
      rfl
    | list _ hget _ _ | tuple _ hget _ _ =>
      simp only [setdefault, hget]
      rfl
    | object hlt hget hE hid =>
      rw [← mergeStep_ordered hx]
      exact merge_ordered_agree ih (.inl ⟨rfl, rfl⟩) hlt hget hE hid (Rooted.mapping (.inl rfl) hLr)
        hx hv hd hlen
    | dict hlt hget hE hid =>
      rw [← mergeStep_ordered hx]
      exact merge_ordered_agree ih (.inr ⟨rfl, rfl⟩) hlt hget hE hid (Rooted.mapping (.inr rfl) hLr)
        hx hv hd hlen
  · have hplain : ∀ inner, v ≠ .object inner := fun inner h => hobj ⟨inner, h⟩
    have hstore : mergeStep f lower s (.str key, x) = s.assign lower (.str key) x := by
      simp [mergeStep, hx.isOrdered_of_ne hplain]
    rw [hstore, layEntry_plain _ hplain]
    exact assign_agree hL hLr hx hv hd

/-- The upper entries laid one after another, each over what the ones before
left; the induction is on the entries, over every store the earlier ones leave. -/
theorem foldlM_agree {f : Nat} (ih : LaysWithin f) (es : List (Value × Slot)) :
    ∀ {s : Store} {A : List (Value × Value)} {iE : List Nat} {lower : Slot} {L : Value}
      {iL : List Nat}, EntriesHold s es A iE → TextKeyed A → (∀ e ∈ A, Tree e.2) → iE.length < f →
      Holds s lower L iL → Rooted L → iE.Disjoint iL →
      Agree (Laid s lower iL iE) (es.foldlM (mergeStep f lower) s) (mergeEntries A L) := by
  induction es with
  | nil =>
    intro s A iE lower L iL hE _ _ _ hL hLr _
    cases hE
    exact ⟨⟨iL, hL, fun j hj => .inl hj⟩, ⟨Nat.le_refl _, fun _ _ _ => rfl⟩, hLr⟩
  | cons e es ihes =>
    intro s A iE lower L iL hE hA htrees hlen hL hLr hd
    cases hE with
    | @cons k x v i _ A' is hx hrest hdx =>
      obtain ⟨key, rfl, -, hA'⟩ := TextKeyed.cons_iff.1 hA
      rw [List.foldlM_cons, mergeEntries_cons]
      rw [List.length_append] at hlen
      have hstep : Agree (Laid s lower iL i) (mergeStep f lower s (.str key, x))
          (layEntry L (.str key, v)) :=
        step_agree ih hL hLr hx (htrees _ List.mem_cons_self)
          (fun _ ha hb => hd (List.mem_append_left _ ha) hb) (by omega)
      refine hstep.bind fun t r hlaid => ?_
      obtain ⟨⟨ir, hr, hsubr⟩, hkept, hroot⟩ := hlaid
      -- the later entries are untouched by the first
      have hdis : is.Disjoint iL := fun _ ha hb => hd (List.mem_append_right _ ha) hb
      have hdisi : is.Disjoint i := fun _ ha hb => hdx hb ha
      have hrest' := hrest.transport (hkept.agrees hrest.lt_size fun j ha hb =>
        (List.mem_append.1 hb).elim (hdis ha) (hdisi ha))
      have hdr : is.Disjoint ir := disjoint_of_sub hrest.lt_size hdis hdisi hsubr
      exact (ihes hrest' hA' (fun e he => htrees e (List.mem_cons_of_mem _ he)) (by omega) hr hroot
        hdr).mono fun _ _ hlaid2 => Laid.trans hsubr hkept hlaid2

/-- Laying in place agrees with laying values, within any number of levels
greater than the containers of the upper source. -/
theorem laysWithin : ∀ fuel, LaysWithin fuel
  | 0 => fun _ _ _ _ _ hlen => absurd hlen (Nat.not_lt_zero _)
  | f + 1 => fun hU hUr hL hLr hd hlen => by
    rw [mergeInto_succ]
    cases hU with
    | val hu =>
      simp only [Store.items, Value.mergeInto, hu.1]
      rfl
    | list _ hget _ _ | tuple _ hget _ _ =>
      simp only [Store.items, hget]
      rfl
    | object _ hget hE _ | dict _ hget hE _ =>
      simp only [Store.items, hget]
      -- the upper mapping's entries, laid one after another by the levels below
      have hA := hUr _ (by first | exact .inl rfl | exact .inr rfl)
      exact (foldlM_agree (laysWithin f) _ hE hA.1 hA.2 (by simpa using hlen) hL hLr
        (fun _ ha hb => hd (List.mem_cons_of_mem _ ha) hb)).mono
        fun t r h => h.mono fun j hj => List.mem_cons_of_mem _ hj

end Steps

end Store

namespace Doc

open Store

/-- Laying a document over another in place agrees with laying their values,
when both hold sources as trees: the two fail with one fault, or the document
holds the merged value. -/
theorem merge_agrees {U L : Doc} {u l : Value} (hU : U.Holds u) (hu : Value.Rooted u) (hL : L.Holds l)
    (hl : Value.Rooted l) :
    Agree (fun (d : Doc) (r : Value) => d.Holds r ∧ Value.Rooted r) (Doc.merge U L) (Value.mergeInto u l) := by
  obtain ⟨iU, hU⟩ := hU
  obtain ⟨iL, hL⟩ := hL
  -- the upper document's containers are joined after the lower one's
  have hU' := hU.adjoin_right (s := L.store) (y := U.root)
  have hL' := hL.extend (Extends.adjoin (t := U.store) (y := U.root))
  have hd : (iU.map (· + L.store.size)).Disjoint iL := by
    intro j ha hb
    obtain ⟨k, -, rfl⟩ := List.mem_map.1 ha
    exact Nat.lt_irrefl _ (Nat.lt_of_le_of_lt (Nat.le_add_left _ _) (hL.lt_size _ hb))
  have hlen : (iU.map (· + L.store.size)).length < (L.store.adjoin U.store U.root).1.size + 1 := by
    have := hU.length_le
    simp only [List.length_map, size_adjoin]
    omega
  refine (laysWithin _ hU' hu hL' hl hd hlen).bind_pure fun t r h => ?_
  obtain ⟨⟨ids, hr, -⟩, -, hrr⟩ := h
  exact ⟨⟨ids, hr⟩, hrr⟩

end Doc

end Firewall
