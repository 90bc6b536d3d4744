import Firewall.Value.Merge

/-!
# Configuration trees and one level of layering

The documents a configuration is read from are trees: every mapping in them
is an ordered mapping keyed by texts, each text once (`Value.Tree`), and
everything else is a leaf, whatever it holds.

On such mappings `Value.mergeEntries` works one level at a time.  Under each
key it puts what `mergeChild` gives for the upper and the lower entry there:
an ordered mapping above is merged into what lies below (into an empty
ordered mapping when nothing does), any other value above replaces what lies
below, and with nothing above the lower entry stays.  The keys of the result
are the lower keys in their order, then the upper keys that the lower mapping
lacks, in theirs (`MergedLevel`).

Main statements:

- `mergeEntries_mapping_eq_ok_iff`: laying entries over a mapping succeeds
  with exactly the level `MergedLevel` describes;
- `mergeEntries_mapping_isOk_iff`: it succeeds exactly when the entry of every
  key can be laid;
- `mergeEntries_leaf_eq_ok_iff`: over a leaf, only no entries at all can be laid;
- `mergeEntries_empty`: a tree laid over an empty mapping is itself.
-/

namespace Firewall
namespace Value

section Keys

/-- The texts that key the entries of a mapping, in order. -/
def keyTexts (kvs : List (Value × Value)) : List String :=
  kvs.filterMap fun e => match e.1 with
    | .str s => some s
    | _ => none

/-- Every entry is keyed by a text, and no text keys two entries. -/
def TextKeyed (kvs : List (Value × Value)) : Prop :=
  (∀ e ∈ kvs, ∃ s, e.1 = .str s) ∧ (keyTexts kvs).Nodup

variable {kvs : List (Value × Value)} {s t : String} {k u v : Value}

@[simp] theorem keyTexts_nil : keyTexts [] = [] := rfl

@[simp] theorem keyTexts_cons_str : keyTexts ((.str s, v) :: kvs) = s :: keyTexts kvs := rfl

theorem keyTexts_append (a b : List (Value × Value)) :
    keyTexts (a ++ b) = keyTexts a ++ keyTexts b := List.filterMap_append

theorem sameKey_str_eq_true_iff : sameKey (.str s) k = true ↔ k = .str s := by
  constructor
  · intro h
    cases k <;> simp_all [sameKey, number?]
  · rintro rfl
    simp

theorem TextKeyed.nil : TextKeyed [] := ⟨by simp, List.nodup_nil⟩

/-- The head of a text-keyed mapping: a text that no later entry repeats. -/
theorem TextKeyed.cons_iff :
    TextKeyed ((k, v) :: kvs) ↔ ∃ s, k = .str s ∧ s ∉ keyTexts kvs ∧ TextKeyed kvs := by
  constructor
  · rintro ⟨htext, hnodup⟩
    obtain ⟨s, rfl⟩ := htext (k, v) List.mem_cons_self
    rw [keyTexts_cons_str, List.nodup_cons] at hnodup
    exact ⟨s, rfl, hnodup.1, fun e he => htext e (List.mem_cons_of_mem _ he), hnodup.2⟩
  · rintro ⟨s, rfl, hs, htext, hnodup⟩
    refine ⟨?_, ?_⟩
    · intro e he
      rcases List.mem_cons.1 he with rfl | he
      · exact ⟨s, rfl⟩
      · exact htext e he
    · rw [keyTexts_cons_str, List.nodup_cons]
      exact ⟨hs, hnodup⟩

theorem lookup_nil : lookup [] k = none := rfl

theorem lookup_cons_str :
    lookup ((.str s, v) :: kvs) (.str t) = if s = t then some v else lookup kvs (.str t) := by
  unfold lookup
  by_cases h : s = t <;> simp [h]

/-- A text that keys no entry finds none. -/
theorem lookup_eq_none_of_not_mem (htext : ∀ e ∈ kvs, ∃ s, e.1 = .str s)
    (ht : t ∉ keyTexts kvs) : lookup kvs (.str t) = none := by
  induction kvs with
  | nil => rfl
  | cons e kvs ih =>
    obtain ⟨s, he⟩ := htext e List.mem_cons_self
    obtain ⟨k, w⟩ := e
    cases he
    have hst : s ≠ t := fun h => ht (h ▸ List.mem_cons_self)
    rw [lookup_cons_str, if_neg hst]
    exact ih (fun e he => htext e (List.mem_cons_of_mem _ he))
      (fun h => ht (List.mem_cons_of_mem _ h))

theorem lookup_eq_some_iff (h : TextKeyed kvs) : lookup kvs (.str t) = some v ↔ (.str t, v) ∈ kvs := by
  induction kvs with
  | nil => simp [lookup_nil]
  | cons e kvs ih =>
    obtain ⟨k, w⟩ := e
    obtain ⟨s, rfl, hs, hrest⟩ := TextKeyed.cons_iff.1 h
    rw [lookup_cons_str, List.mem_cons]
    by_cases hst : s = t
    · subst hst
      -- the later entries cannot hold the head's text
      have hnot : (Value.str s, v) ∉ kvs := fun hm =>
        hs (List.mem_filterMap.2 ⟨(.str s, v), hm, rfl⟩)
      simp [hnot, eq_comm]
    · rw [if_neg hst, ih hrest]
      simp [Ne.symm hst]

theorem setKey_nil : setKey [] k v = [(k, v)] := rfl

theorem setKey_cons_ne (h : s ≠ t) :
    setKey ((.str s, u) :: kvs) (.str t) v = (.str s, u) :: setKey kvs (.str t) v := by
  unfold setKey
  have hne : (s == t) = false := by simpa using h
  by_cases hany : kvs.any (fun e => sameKey e.1 (.str t)) = true
  · simp [hne, hany]
  · simp [hne, hany]

/-- Setting the key of the head replaces its value when no later entry has the key. -/
theorem setKey_cons_self (htext : ∀ e ∈ kvs, ∃ s, e.1 = .str s) (ht : t ∉ keyTexts kvs) :
    setKey ((.str t, u) :: kvs) (.str t) v = (.str t, v) :: kvs := by
  have hnone : ∀ e ∈ kvs, sameKey e.1 (.str t) = false := by
    intro e he
    obtain ⟨s, hs⟩ := htext e he
    obtain ⟨k, w⟩ := e
    cases hs
    have hst : s ≠ t := by
      rintro rfl
      exact ht (List.mem_filterMap.2 ⟨(.str s, w), he, rfl⟩)
    simpa using hst
  unfold setKey
  have hmap : kvs.map (fun e => if sameKey e.1 (.str t) = true then (e.1, v) else e) = kvs := by
    conv => rhs; rw [← List.map_id kvs]
    exact List.map_congr_left (fun e he => by simp [hnone e he])
  simp [hmap]

/-- The keys after setting one: unchanged when the key is there, else the key comes last. -/
theorem keyTexts_setKey (h : TextKeyed kvs) :
    keyTexts (setKey kvs (.str t) v) = if t ∈ keyTexts kvs then keyTexts kvs else keyTexts kvs ++ [t] := by
  induction kvs with
  | nil => simp [setKey_nil, keyTexts]
  | cons e kvs ih =>
    obtain ⟨k, w⟩ := e
    obtain ⟨s, rfl, hs, hrest⟩ := TextKeyed.cons_iff.1 h
    by_cases hst : s = t
    · subst hst
      rw [setKey_cons_self hrest.1 hs]
      simp
    · rw [setKey_cons_ne hst, keyTexts_cons_str, keyTexts_cons_str, ih hrest]
      by_cases ht : t ∈ keyTexts kvs <;> simp [ht, Ne.symm hst]

theorem lookup_setKey_ne (h : TextKeyed kvs) (hst : s ≠ t) :
    lookup (setKey kvs (.str t) v) (.str s) = lookup kvs (.str s) := by
  induction kvs with
  | nil => simp [setKey_nil, lookup_cons_str, Ne.symm hst, lookup_nil]
  | cons e kvs ih =>
    obtain ⟨k, w⟩ := e
    obtain ⟨r, rfl, hr, hrest⟩ := TextKeyed.cons_iff.1 h
    by_cases hrt : r = t
    · subst hrt
      rw [setKey_cons_self hrest.1 hr, lookup_cons_str, lookup_cons_str, if_neg (Ne.symm hst),
        if_neg (Ne.symm hst)]
    · rw [setKey_cons_ne hrt, lookup_cons_str, lookup_cons_str, ih hrest]

theorem lookup_setKey_same : lookup (setKey kvs (.str t) v) (.str t) = some v :=
  lookup_setKey_self kvs (.str t) v (by simp)

theorem TextKeyed.setKey (h : TextKeyed kvs) : TextKeyed (Value.setKey kvs (.str t) v) := by
  induction kvs with
  | nil => exact TextKeyed.cons_iff.2 ⟨t, rfl, by simp, TextKeyed.nil⟩
  | cons e kvs ih =>
    obtain ⟨k, w⟩ := e
    obtain ⟨s, rfl, hs, hrest⟩ := TextKeyed.cons_iff.1 h
    by_cases hst : s = t
    · subst hst
      rw [setKey_cons_self hrest.1 hs]
      exact TextKeyed.cons_iff.2 ⟨s, rfl, hs, hrest⟩
    · rw [setKey_cons_ne hst]
      refine TextKeyed.cons_iff.2 ⟨s, rfl, ?_, ih hrest⟩
      rw [keyTexts_setKey hrest]
      split <;> simp [hs, hst]

/-- Text-keyed mappings with the same keys in the same order and the same entry under each
key are the same mapping. -/
theorem TextKeyed.ext {a b : List (Value × Value)} (ha : TextKeyed a) (hb : TextKeyed b)
    (hkeys : keyTexts a = keyTexts b) (hlookup : ∀ s, lookup a (.str s) = lookup b (.str s)) :
    a = b := by
  induction a generalizing b with
  | nil =>
    cases b with
    | nil => rfl
    | cons e b =>
      obtain ⟨k, w⟩ := e
      obtain ⟨s, rfl, -, -⟩ := TextKeyed.cons_iff.1 hb
      simp at hkeys
  | cons e a ih =>
    obtain ⟨k, w⟩ := e
    obtain ⟨s, rfl, hs, hrest⟩ := TextKeyed.cons_iff.1 ha
    cases b with
    | nil => simp at hkeys
    | cons e' b =>
      obtain ⟨k', w'⟩ := e'
      obtain ⟨s', rfl, hs', hrest'⟩ := TextKeyed.cons_iff.1 hb
      rw [keyTexts_cons_str, keyTexts_cons_str, List.cons.injEq] at hkeys
      obtain ⟨rfl, htail⟩ := hkeys
      -- the head entries agree at their key, and the tails everywhere else
      have hhead := hlookup s
      rw [lookup_cons_str, lookup_cons_str, if_pos rfl, if_pos rfl, Option.some.injEq] at hhead
      subst hhead
      congr 1
      refine ih hrest hrest' htail fun t => ?_
      by_cases hst : s = t
      · subst hst
        rw [lookup_eq_none_of_not_mem hrest.1 hs, lookup_eq_none_of_not_mem hrest'.1 hs']
      · have ht := hlookup t
        rwa [lookup_cons_str, lookup_cons_str, if_neg hst, if_neg hst] at ht

end Keys

section Tree

/-- A configuration tree as documents are read into: every mapping is an ordered mapping keyed
by texts, each text once, over trees; any other value is a leaf, whatever it holds. -/
inductive Tree : Value → Prop
  | leaf {v : Value} : v.mapping? = none → Tree v
  | object {kvs : List (Value × Value)} : TextKeyed kvs → (∀ e ∈ kvs, Tree e.2) → Tree (.object kvs)

theorem Tree.lookup {kvs : List (Value × Value)} {s : String} {c : Value}
    (h : Tree (.object kvs)) (hc : lookup kvs (.str s) = some c) : Tree c := by
  cases h with
  | leaf h => simp [mapping?, unfold] at h
  | object hk hall => exact hall _ ((lookup_eq_some_iff hk).1 hc)

theorem Tree.textKeyed {kvs : List (Value × Value)} (h : Tree (.object kvs)) : TextKeyed kvs := by
  cases h with
  | leaf h => simp [mapping?, unfold] at h
  | object hk _ => exact hk

theorem Tree.of_mem {kvs : List (Value × Value)} {e : Value × Value} (h : Tree (.object kvs))
    (he : e ∈ kvs) : Tree e.2 := by
  cases h with
  | leaf h => simp [mapping?, unfold] at h
  | object _ hall => exact hall e he

/-- Records, as configurations are written, are trees when their texts are distinct. -/
theorem Tree.record_nil : Tree (Value.record []) := .object TextKeyed.nil (by simp)

theorem Tree.record_cons {k : String} {v : Value} {kvs : List (String × Value)}
    (hk : k ∉ kvs.map Prod.fst) (hv : Tree v) (h : Tree (Value.record kvs)) :
    Tree (Value.record ((k, v) :: kvs)) := by
  have hkeys : keyTexts (kvs.map fun e => (Value.str e.1, e.2)) = kvs.map Prod.fst := by
    rw [keyTexts, List.filterMap_map, ← List.filterMap_eq_map]
    rfl
  refine .object (TextKeyed.cons_iff.2 ⟨k, rfl, hkeys ▸ hk, h.textKeyed⟩) fun e he => ?_
  rcases List.mem_cons.1 he with rfl | he
  · exact hv
  · exact h.of_mem he

/-- A tree is a leaf or an ordered mapping. -/
theorem Tree.cases {v : Value} (h : Tree v) : v.mapping? = none ∨ ∃ kvs, v = .object kvs := by
  cases h with
  | leaf h => exact .inl h
  | object => exact .inr ⟨_, rfl⟩

end Tree

section Level

/-- A value laid over what lies below it, if anything: an ordered mapping is merged into the
lower value (into an empty ordered mapping when there is none); any other value replaces it. -/
def mergeOver (upper : Value) (lower : Option Value) : Except Fault Value :=
  match upper with
  | .object inner => mergeEntries inner (lower.getD (.object []))
  | v => .ok v

/-- What layering leaves under one key, given the upper and the lower entry there, each
possibly absent. -/
def mergeChild : Option Value → Option Value → Except Fault (Option Value)
  | some u, lower => some <$> mergeOver u lower
  | none, lower => .ok lower

@[simp] theorem mergeChild_none (lower : Option Value) : mergeChild none lower = .ok lower := rfl

theorem mergeChild_some_eq_ok {u : Value} {lower r : Option Value} :
    mergeChild (some u) lower = .ok r ↔ ∃ c, mergeOver u lower = .ok c ∧ r = some c := by
  unfold mergeChild
  cases h : mergeOver u lower with
  | error f => simp [h, Functor.map, Except.map]
  | ok c => simp [h, Functor.map, Except.map, eq_comm]

/-- One level of layering over a mapping: the lower keys in their order, then the upper keys
that the lower mapping lacks, in theirs, each under what `mergeChild` puts there. -/
structure MergedLevel (upper lower res : List (Value × Value)) : Prop where
  keys : keyTexts res = keyTexts lower ++ (keyTexts upper).filter (· ∉ keyTexts lower)
  entries : ∀ s, mergeChild (lookup upper (.str s)) (lookup lower (.str s)) = .ok (lookup res (.str s))

variable {mk : List (Value × Value) → Value}

/-- One entry laid over a mapping of either kind, and the rest over the result. -/
theorem mergeEntries_cons_mapping (hmk : mk = .object ∨ mk = .dict) (k u : Value)
    (rest lower : List (Value × Value)) :
    mergeEntries ((k, u) :: rest) (mk lower) =
      mergeOver u (lookup lower k) >>= fun c => mergeEntries rest (mk (setKey lower k c)) := by
  rcases hmk with rfl | rfl <;> cases u <;> rfl

/-- The keys of a level: a first upper key, new or not, joins the lower keys before the rest. -/
theorem keys_level_cons {L R : List String} (hs : s ∉ R) :
    (if s ∈ L then L else L ++ [s]) ++ R.filter (· ∉ (if s ∈ L then L else L ++ [s])) =
      L ++ (s :: R).filter (· ∉ L) := by
  by_cases hL : s ∈ L
  · simp [hL]
  · have hR : R.filter (· ∉ L ++ [s]) = R.filter (· ∉ L) :=
      List.filter_congr fun x hx => by
        have : x ≠ s := fun h => hs (h ▸ hx)
        simp [this]
    rw [if_neg hL, List.filter_cons_of_pos (by simpa using hL), hR, List.append_assoc,
      List.singleton_append]

/-- A level for the rest of the upper entries, laid over the lower mapping with the first
upper entry already set, is a level for all of them. -/
theorem MergedLevel.cons {rest lower res : List (Value × Value)} {c : Value}
    (hl : TextKeyed lower) (hs : s ∉ keyTexts rest) (htext : ∀ e ∈ rest, ∃ s, e.1 = .str s)
    (hc : mergeOver u (lookup lower (.str s)) = .ok c)
    (h : MergedLevel rest (setKey lower (.str s) c) res) :
    MergedLevel ((.str s, u) :: rest) lower res := by
  refine ⟨?_, fun t => ?_⟩
  · rw [h.keys, keyTexts_setKey hl, keyTexts_cons_str]
    exact keys_level_cons hs
  · have ht := h.entries t
    rw [lookup_cons_str]
    by_cases hst : s = t
    · subst hst
      rw [lookup_eq_none_of_not_mem htext hs, lookup_setKey_same, mergeChild_none] at ht
      rw [if_pos rfl, ← ht]
      simp [mergeChild, hc, Functor.map, Except.map]
    · rwa [if_neg hst, ← lookup_setKey_ne hl (Ne.symm hst)]

/-- Conversely, a level for all upper entries is one for the rest, laid over the lower mapping
with the first entry set to what the level holds under its key. -/
theorem MergedLevel.of_cons {rest lower res : List (Value × Value)}
    (hl : TextKeyed lower) (hs : s ∉ keyTexts rest) (htext : ∀ e ∈ rest, ∃ s, e.1 = .str s)
    (h : MergedLevel ((.str s, u) :: rest) lower res) :
    ∃ c, mergeOver u (lookup lower (.str s)) = .ok c ∧ lookup res (.str s) = some c ∧
      MergedLevel rest (setKey lower (.str s) c) res := by
  have hhead := h.entries s
  rw [lookup_cons_str, if_pos rfl] at hhead
  obtain ⟨c, hc, hres⟩ := mergeChild_some_eq_ok.1 hhead
  refine ⟨c, hc, hres, ?_, fun t => ?_⟩
  · rw [h.keys, keyTexts_setKey hl, keyTexts_cons_str]
    exact (keys_level_cons hs).symm
  · by_cases hst : s = t
    · subst hst
      rw [lookup_eq_none_of_not_mem htext hs, lookup_setKey_same, mergeChild_none, hres]
    · have ht := h.entries t
      rwa [lookup_cons_str, if_neg hst, ← lookup_setKey_ne hl (Ne.symm hst)] at ht

/-- Laying entries over a mapping succeeds with exactly the level `MergedLevel` describes,
and the result is a mapping of the same kind. -/
theorem mergeEntries_mapping_eq_ok_iff (hmk : mk = .object ∨ mk = .dict)
    {upper lower : List (Value × Value)} {r : Value} (hu : TextKeyed upper) (hl : TextKeyed lower) :
    mergeEntries upper (mk lower) = .ok r ↔ ∃ res, r = mk res ∧ TextKeyed res ∧ MergedLevel upper lower res := by
  induction upper generalizing lower with
  | nil =>
    rw [mergeEntries_nil, Except.ok.injEq]
    constructor
    · rintro rfl
      refine ⟨lower, rfl, hl, ?_, fun t => ?_⟩
      · simp
      · simp [lookup_nil]
    · rintro ⟨res, rfl, hres, hlevel⟩
      congr 1
      exact (TextKeyed.ext hres hl (by simpa using hlevel.keys)
        (fun t => by simpa [lookup_nil] using (hlevel.entries t).symm)).symm
  | cons e rest ih =>
    obtain ⟨k, u⟩ := e
    obtain ⟨s, rfl, hs, hrest⟩ := TextKeyed.cons_iff.1 hu
    rw [mergeEntries_cons_mapping hmk]
    constructor
    · intro h
      obtain ⟨c, hc, hmerge⟩ : ∃ c, mergeOver u (lookup lower (.str s)) = .ok c ∧
          mergeEntries rest (mk (setKey lower (.str s) c)) = .ok r := by
        cases hc : mergeOver u (lookup lower (.str s)) with
        | error f => rw [hc] at h; cases h
        | ok c => exact ⟨c, rfl, by rwa [hc] at h⟩
      obtain ⟨res, rfl, hres, hlevel⟩ := (ih hrest hl.setKey).1 hmerge
      exact ⟨res, rfl, hres, MergedLevel.cons hl hs hrest.1 hc hlevel⟩
    · rintro ⟨res, rfl, hres, hlevel⟩
      obtain ⟨c, hc, -, hlevel'⟩ := MergedLevel.of_cons hl hs hrest.1 hlevel
      rw [hc]
      exact (ih hrest hl.setKey).2 ⟨res, rfl, hres, hlevel'⟩

/-- Laying entries over a mapping succeeds exactly when the entry of every key can be laid. -/
theorem mergeEntries_mapping_isOk_iff (hmk : mk = .object ∨ mk = .dict)
    {upper lower : List (Value × Value)} (hu : TextKeyed upper) (hl : TextKeyed lower) :
    (∃ r, mergeEntries upper (mk lower) = .ok r) ↔
      ∀ s, ∃ o, mergeChild (lookup upper (.str s)) (lookup lower (.str s)) = .ok o := by
  constructor
  · rintro ⟨r, hr⟩ t
    obtain ⟨res, -, -, hlevel⟩ := (mergeEntries_mapping_eq_ok_iff hmk hu hl).1 hr
    exact ⟨_, hlevel.entries t⟩
  · intro hall
    induction upper generalizing lower with
    | nil => exact ⟨_, mergeEntries_nil _⟩
    | cons e rest ih =>
      obtain ⟨k, u⟩ := e
      obtain ⟨s, rfl, hs, hrest⟩ := TextKeyed.cons_iff.1 hu
      obtain ⟨o, ho⟩ := hall s
      rw [lookup_cons_str, if_pos rfl] at ho
      obtain ⟨c, hc, -⟩ := mergeChild_some_eq_ok.1 ho
      -- the rest meets the lower mapping as before, except at the key just set
      have hall' : ∀ t, ∃ o, mergeChild (lookup rest (.str t))
          (lookup (setKey lower (.str s) c) (.str t)) = .ok o := by
        intro t
        by_cases hst : s = t
        · subst hst
          exact ⟨_, by rw [lookup_eq_none_of_not_mem hrest.1 hs, mergeChild_none]⟩
        · obtain ⟨o, ho⟩ := hall t
          rw [lookup_cons_str, if_neg hst] at ho
          exact ⟨o, by rwa [lookup_setKey_ne hl (Ne.symm hst)]⟩
      obtain ⟨r, hr⟩ := ih hrest hl.setKey hall'
      exact ⟨r, by rw [mergeEntries_cons_mapping hmk, hc]; exact hr⟩

/-- Over a value that is no mapping, only no entries at all can be laid: a mapping entry finds
nowhere to go, and any other entry is refused by the value, which takes no text keys. -/
theorem mergeEntries_leaf_eq_ok_iff {upper : List (Value × Value)} {lower r : Value}
    (hu : TextKeyed upper) (hl : lower.mapping? = none) :
    mergeEntries upper lower = .ok r ↔ upper = [] ∧ r = lower := by
  cases upper with
  | nil => simp [eq_comm]
  | cons e rest =>
    obtain ⟨k, u⟩ := e
    obtain ⟨s, rfl, -, -⟩ := TextKeyed.cons_iff.1 hu
    simp only [reduceCtorEq, false_and, iff_false]
    have hobj : ∀ kvs, lower ≠ .object kvs := by rintro kvs rfl; simp [mapping?, unfold] at hl
    have hdict : ∀ kvs, lower ≠ .dict kvs := by rintro kvs rfl; simp [mapping?, unfold] at hl
    cases u <;> cases lower <;> simp_all [mergeEntries, assign, listIndex, bind, Except.bind]

theorem mergeOver_leaf {u : Value} (hu : u.mapping? = none) (lower : Option Value) :
    mergeOver u lower = .ok u := by
  cases u <;> simp_all [mergeOver, mapping?, unfold]

/-- A tree laid over nothing is itself: every mapping in it is merged into an empty one, which
takes its entries in their order. -/
theorem mergeOver_none {u : Value} (h : Tree u) : mergeOver u none = .ok u := by
  induction h with
  | leaf hu => exact mergeOver_leaf hu none
  | @object kvs hk _ ih =>
    refine (mergeEntries_mapping_eq_ok_iff (.inl rfl) hk TextKeyed.nil).2
      ⟨kvs, rfl, hk, by simp [List.filter_eq_self.2], fun t => ?_⟩
    cases hc : lookup kvs (.str t) with
    | none => rfl
    | some c =>
      rw [lookup_nil, mergeChild, ih _ ((lookup_eq_some_iff hk).1 hc)]
      rfl

/-- A tree's entries laid over an empty mapping give the tree back. -/
theorem mergeEntries_empty {kvs : List (Value × Value)} (h : Tree (.object kvs)) :
    mergeEntries kvs (.object []) = .ok (.object kvs) :=
  mergeOver_none h

end Level

end Value
end Firewall
