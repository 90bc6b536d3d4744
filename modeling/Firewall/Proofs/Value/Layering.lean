import Firewall.Proofs.Value.Tree

/-!
# Layering configuration trees, path by path

`Value.mergeInto upper lower` lays one configuration over another.  Read path
by path, on trees, it is the union of the two trees in which the upper one
wins (`Layered`):

- a path of the result ends in a leaf exactly when the upper tree has that
  leaf there, or the lower tree has it there and nothing in the upper tree
  hides it: no leaf of the upper tree at the path or on the way to it, and no
  mapping with entries at the path (`Uncovered`);
- every other path of either tree, below mappings of the result, is a mapping;
- each mapping of the result has the lower keys first, in their order, then
  the upper keys that the lower mapping lacks, in theirs.

Layering fails exactly where the upper tree holds a mapping with entries and
the lower one a leaf (`Clash`): the leaf cannot take entries.  An empty
mapping laid over a leaf leaves the leaf.

The proof follows the recursion of the merge on the upper tree: one level is
`MergedLevel`, and a property of every path is a property of the root and of
every path of each child (`Layered.of_children`).
-/

namespace Firewall
namespace Value

section Paths

/-- The value under a path of text keys, walking down through ordered mappings. -/
def atPath : Value → List String → Option Value
  | v, [] => some v
  | .object kvs, k :: p => (lookup kvs (.str k)).bind fun c => c.atPath p
  | _, _ :: _ => none

/-- The value under a path of a tree that may be absent. -/
def entryAt (o : Option Value) (p : List String) : Option Value := o.bind (·.atPath p)

/-- The entry of a tree that may be absent, under one key. -/
def childAt (o : Option Value) (k : String) : Option Value := entryAt o [k]

/-- The texts keying the mapping at a path; none when no mapping is there. -/
def keysAt (o : Option Value) (p : List String) : List String :=
  match entryAt o p with
  | some (.object kvs) => keyTexts kvs
  | _ => []

variable {o : Option Value} {v : Value} {kvs : List (Value × Value)} {k : String}
  {p : List String}

@[simp] theorem entryAt_nil : entryAt o [] = o := by cases o <;> rfl

@[simp] theorem entryAt_none : entryAt none p = none := rfl

@[simp] theorem entryAt_some : entryAt (some v) p = v.atPath p := rfl

theorem atPath_leaf_cons (hv : v.mapping? = none) : v.atPath (k :: p) = none := by
  cases v <;> simp_all [atPath, mapping?, unfold]

theorem entryAt_cons : entryAt o (k :: p) = entryAt (childAt o k) p := by
  cases o with
  | none => rfl
  | some v =>
    cases v <;> simp [childAt, entryAt, atPath]

@[simp] theorem childAt_object : childAt (some (.object kvs)) k = lookup kvs (.str k) := by
  simp [childAt, atPath]

theorem childAt_leaf (hv : v.mapping? = none) : childAt (some v) k = none := by
  simp [childAt, atPath_leaf_cons hv]

theorem keysAt_cons : keysAt o (k :: p) = keysAt (childAt o k) p := by
  simp only [keysAt, entryAt_cons]

/-- A tree holds trees at every path. -/
theorem Tree.atPath {x : Value} (hv : Tree v) (h : v.atPath p = some x) : Tree x := by
  induction p generalizing v with
  | nil => cases h; exact hv
  | cons k p ih =>
    rcases hv.cases with hl | ⟨kvs, rfl⟩
    · simp [atPath_leaf_cons hl] at h
    · rw [Value.atPath] at h
      obtain ⟨c, hc, hx⟩ := Option.bind_eq_some_iff.1 h
      exact ih (hv.lookup hc) hx

theorem leaf_ne_object (hv : v.mapping? = none) : v ≠ .object kvs := by
  rintro rfl
  simp [mapping?, unfold] at hv

end Paths

section Spec

/-- Nothing in the upper tree hides the lower one at a path: the upper tree holds no leaf at
the path or on the way to it, and no mapping with entries at the path itself. -/
def Uncovered (u : Option Value) (p : List String) : Prop :=
  (∀ q x, q <+: p → entryAt u q = some x → x.mapping? ≠ none) ∧
    ∀ kvs, entryAt u p = some (.object kvs) → kvs = []

/-- At some path the upper tree holds a mapping with entries and the lower tree a leaf. -/
def Clash (u l : Option Value) : Prop :=
  ∃ p kvs x, entryAt u p = some (.object kvs) ∧ kvs ≠ [] ∧ entryAt l p = some x ∧
    x.mapping? = none

/-- The result `r` of laying the upper tree `u` over the lower tree `l`, path by path. -/
structure Layered (u l r : Option Value) : Prop where
  /-- A path ends in a leaf of the result exactly when the upper tree has that leaf there, or
  the lower tree has it there and nothing in the upper tree hides it. -/
  leaf : ∀ p x, x.mapping? = none →
    (entryAt r p = some x ↔ entryAt u p = some x ∨ (entryAt l p = some x ∧ Uncovered u p))
  /-- Every other path of either tree, below mappings of the result, is a mapping. -/
  inner : ∀ p, (entryAt u p).isSome ∨ (entryAt l p).isSome →
    (∀ q, q <+: p → q ≠ p → ∃ kvs, entryAt r q = some (.object kvs)) →
    (∀ x, x.mapping? = none → entryAt r p ≠ some x) → ∃ kvs, entryAt r p = some (.object kvs)
  /-- A mapping of the result has the lower keys in their order, then the upper keys the
  lower mapping lacks, in theirs. -/
  keys : ∀ p kvs, entryAt r p = some (.object kvs) →
    keyTexts kvs = keysAt l p ++ (keysAt u p).filter (· ∉ keysAt l p)

variable {u l : Option Value} {v x : Value} {A C : List (Value × Value)} {k : String}
  {p : List String}

theorem uncovered_none : Uncovered none p := ⟨by simp, by simp⟩

/-- Below a mapping of the upper tree, what hides a path is what hides it in the child. -/
theorem uncovered_cons (hu : u = some (.object A)) :
    Uncovered u (k :: p) ↔ Uncovered (childAt u k) p := by
  subst hu
  constructor
  · rintro ⟨hleaf, hempty⟩
    refine ⟨fun q x hq hx => ?_, fun kvs h => hempty kvs (by rwa [entryAt_cons])⟩
    exact hleaf (k :: q) x (List.cons_prefix_cons.2 ⟨rfl, hq⟩) (by rwa [entryAt_cons])
  · rintro ⟨hleaf, hempty⟩
    refine ⟨fun q x hq hx => ?_, fun kvs h => hempty kvs (by rwa [entryAt_cons] at h)⟩
    rcases List.prefix_cons_iff.1 hq with rfl | ⟨q', rfl, hq'⟩
    · -- the root of the upper tree is a mapping
      simp only [entryAt_nil, Option.some.injEq] at hx
      subst hx
      simp [mapping?, unfold]
    · exact hleaf q' x hq' (by rwa [entryAt_cons] at hx)

/-- The paths strictly above `k :: p`: the root, and `k` before those strictly above `p`. -/
theorem mappings_above_cons {r : Option Value} (hr : r = some (.object C)) :
    (∀ q, q <+: k :: p → q ≠ k :: p → ∃ kvs, entryAt r q = some (.object kvs)) ↔
      ∀ q, q <+: p → q ≠ p → ∃ kvs, entryAt (childAt r k) q = some (.object kvs) := by
  constructor
  · intro h q hq hne
    simpa [entryAt_cons] using h (k :: q) (List.cons_prefix_cons.2 ⟨rfl, hq⟩) (by simpa using hne)
  · intro h q hq hne
    rcases List.prefix_cons_iff.1 hq with rfl | ⟨q', rfl, hq'⟩
    · exact ⟨C, by simp [hr]⟩
    · simpa [entryAt_cons] using h q' hq' (by simpa using hne)

/-- A property of every path of a layering with mappings at the root is one of the root and of
every path of each child. -/
theorem Layered.of_children {r : Option Value} (hu : u = some (.object A))
    (hl : ∀ x, l = some x → ∃ B, x = .object B) (hr : r = some (.object C))
    (hkeys : keyTexts C = keysAt l [] ++ (keyTexts A).filter (· ∉ keysAt l []))
    (hchild : ∀ k, Layered (childAt u k) (childAt l k) (childAt r k)) : Layered u l r := by
  refine ⟨fun p x hx => ?_, fun p hp habove hnot => ?_, fun p kvs hkvs => ?_⟩
  · cases p with
    | nil =>
      -- at the root every tree is a mapping, never a leaf
      have hr0 : r ≠ some x := by rw [hr]; exact fun h => leaf_ne_object hx (Option.some.inj h).symm
      have hu0 : u ≠ some x := by rw [hu]; exact fun h => leaf_ne_object hx (Option.some.inj h).symm
      have hl0 : l ≠ some x := fun h => by
        obtain ⟨B, rfl⟩ := hl x h
        exact leaf_ne_object hx rfl
      simp [hr0, hu0, hl0]
    | cons k p =>
      rw [entryAt_cons, entryAt_cons, entryAt_cons, uncovered_cons hu]
      exact (hchild k).leaf p x hx
  · cases p with
    | nil => exact ⟨C, by simp [hr]⟩
    | cons k p =>
      rw [entryAt_cons, entryAt_cons] at hp
      rw [mappings_above_cons hr] at habove
      rw [entryAt_cons] at hnot ⊢
      exact (hchild k).inner p hp habove hnot
  · cases p with
    | nil =>
      rw [entryAt_nil, hr, Option.some.injEq, Value.object.injEq] at hkvs
      subst hkvs
      rw [hkeys]
      simp [keysAt, hu]
    | cons k p =>
      rw [entryAt_cons] at hkvs
      rw [keysAt_cons, keysAt_cons]
      exact (hchild k).keys p kvs hkvs

/-- With nothing above, the lower tree stays as it is. -/
theorem Layered.absent (hl : ∀ w ∈ l, Tree w) : Layered none l l := by
  refine ⟨fun p x _ => ?_, fun p hp _ hnot => ?_, fun p kvs hkvs => ?_⟩
  · simp [uncovered_none]
  · -- what the lower tree has there is a tree and no leaf, so a mapping
    simp only [entryAt_none, Option.isSome_none, Bool.false_eq_true, false_or,
      Option.isSome_iff_exists] at hp
    obtain ⟨y, hy⟩ := hp
    cases l with
    | none => simp at hy
    | some w =>
      rcases ((hl w rfl).atPath hy).cases with hleaf | ⟨kvs, rfl⟩
      · exact absurd hy (hnot y hleaf)
      · exact ⟨kvs, hy⟩
  · simp [keysAt, hkvs]

/-- A leaf above replaces whatever lies below. -/
theorem Layered.leafAbove (hv : v.mapping? = none) : Layered (some v) l (some v) := by
  -- the upper leaf sits at the root, so it hides every path
  have hcover : ∀ p, ¬ Uncovered (some v) p := fun p h =>
    h.1 [] v List.nil_prefix (by simp) hv
  refine ⟨fun p x _ => by simp [hcover p], fun p _ habove hnot => ?_, fun p kvs hkvs => ?_⟩
  · cases p with
    | nil => exact absurd rfl (hnot v hv)
    | cons k p =>
      obtain ⟨kvs, hkvs⟩ := habove [] List.nil_prefix (by simp)
      simp only [entryAt_nil, Option.some.injEq] at hkvs
      exact absurd hkvs (leaf_ne_object hv)
  · cases p with
    | nil => exact absurd (Option.some.inj hkvs) (leaf_ne_object hv)
    | cons k p => simp [atPath_leaf_cons hv] at hkvs

/-- An empty mapping above a leaf leaves the leaf. -/
theorem Layered.emptyOverLeaf (hx : x.mapping? = none) : Layered (some (.object [])) (some x) (some x) := by
  refine ⟨fun p y hy => ?_, fun p _ habove hnot => ?_, fun p kvs hkvs => ?_⟩
  · cases p with
    | nil =>
      have hne : Value.object [] ≠ y := fun h => leaf_ne_object hy h.symm
      have hun : Uncovered (some (.object [])) [] := by
        refine ⟨fun q z hq hz => ?_, fun kvs h => ?_⟩
        · rw [List.prefix_nil.1 hq] at hz
          simp only [entryAt_nil, Option.some.injEq] at hz
          subst hz
          simp [mapping?, unfold]
        · simpa using h.symm
      simp [hne, hun]
    | cons k p => simp [atPath_leaf_cons hx, atPath, lookup_nil]
  · cases p with
    | nil => exact absurd rfl (hnot x hx)
    | cons k p =>
      obtain ⟨kvs, hkvs⟩ := habove [] List.nil_prefix (by simp)
      simp only [entryAt_nil, Option.some.injEq] at hkvs
      exact absurd hkvs (leaf_ne_object hx)
  · cases p with
    | nil => exact absurd (Option.some.inj hkvs) (leaf_ne_object hx)
    | cons k p => simp [atPath_leaf_cons hx] at hkvs

theorem not_clash_none : ¬ Clash none l := by
  rintro ⟨p, kvs, x, h, -⟩
  simp at h

theorem not_clash_leaf (hv : v.mapping? = none) : ¬ Clash (some v) l := by
  rintro ⟨p, kvs, x, h, -⟩
  cases p with
  | nil => exact leaf_ne_object hv (Option.some.inj h)
  | cons k p => simp [atPath_leaf_cons hv] at h

/-- Below mappings at the root of both trees, a clash is a clash of some child. -/
theorem clash_object_iff (hl : ∀ x, l = some x → ∃ B, x = .object B) :
    Clash (some (.object A)) l ↔ ∃ k, Clash (lookup A (.str k)) (childAt l k) := by
  constructor
  · rintro ⟨p, kvs, x, hu, hne, hlx, hx⟩
    cases p with
    | nil =>
      obtain ⟨B, rfl⟩ := hl x (by simpa using hlx)
      simp [mapping?, unfold] at hx
    | cons k p =>
      rw [entryAt_cons, childAt_object] at hu
      rw [entryAt_cons] at hlx
      exact ⟨k, p, kvs, x, hu, hne, hlx, hx⟩
  · rintro ⟨k, p, kvs, x, hu, hne, hlx, hx⟩
    refine ⟨k :: p, kvs, x, ?_, hne, ?_, hx⟩
    · rwa [entryAt_cons, childAt_object]
    · rwa [entryAt_cons]

/-- Over a leaf, a mapping clashes exactly when it has entries. -/
theorem clash_over_leaf (hx : x.mapping? = none) : Clash (some (.object A)) (some x) ↔ A ≠ [] := by
  constructor
  · rintro ⟨p, kvs, y, hu, hne, hly, -⟩
    cases p with
    | nil =>
      simp only [entryAt_some, atPath, Option.some.injEq, Value.object.injEq] at hu
      exact hu ▸ hne
    | cons k p => simp [atPath_leaf_cons hx] at hly
  · intro hne
    exact ⟨[], A, x, rfl, hne, rfl, hx⟩

end Spec

section Merge

variable {u l : Option Value} {v : Value}

theorem except_error_iff_not_ok {α : Type} {e : Except Fault α} :
    (∃ f, e = .error f) ↔ ¬ ∃ a, e = .ok a := by
  cases e <;> simp

/-- What layering promises for one key: it fails exactly at a clash, and otherwise leaves a
tree, possibly absent, that is the layering of the two entries path by path. -/
def ChildLayered (u l : Option Value) : Prop :=
  ((∃ f, mergeChild u l = .error f) ↔ Clash u l) ∧
    ∀ r, mergeChild u l = .ok r → Layered u l r ∧ ∀ w ∈ r, Tree w

theorem childLayered_none (hl : ∀ w ∈ l, Tree w) : ChildLayered none l := by
  refine ⟨by simp [not_clash_none], fun r hr => ?_⟩
  cases hr
  exact ⟨Layered.absent hl, hl⟩

/-- Entries laid over a mapping, from what each key's entries do. -/
theorem childLayered_level {A B : List (Value × Value)} (hA : TextKeyed A) (hB : TextKeyed B)
    (hl : ∀ x, l = some x → ∃ B', x = .object B') (hlB : ∀ k, childAt l k = lookup B (.str k))
    (hkeys : keysAt l [] = keyTexts B)
    (hchild : ∀ k, ChildLayered (lookup A (.str k)) (lookup B (.str k))) :
    ((∃ f, mergeEntries A (.object B) = .error f) ↔ Clash (some (.object A)) l) ∧
      ∀ c, mergeEntries A (.object B) = .ok c → Layered (some (.object A)) l (some c) ∧ Tree c := by
  refine ⟨?_, fun c hc => ?_⟩
  · rw [except_error_iff_not_ok, mergeEntries_mapping_isOk_iff (.inl rfl) hA hB,
      clash_object_iff hl]
    simp only [hlB]
    rw [Classical.not_forall]
    exact exists_congr fun k => by rw [← (hchild k).1, except_error_iff_not_ok]
  · obtain ⟨C, rfl, hC, hlevel⟩ := (mergeEntries_mapping_eq_ok_iff (.inl rfl) hA hB).1 hc
    have hres := fun k => (hchild k).2 _ (hlevel.entries k)
    refine ⟨Layered.of_children rfl hl rfl (by rw [hkeys]; exact hlevel.keys) fun k => ?_, ?_⟩
    · simpa [hlB] using (hres k).1
    · refine Tree.object hC fun e he => ?_
      obtain ⟨s, hs⟩ := hC.1 e he
      obtain ⟨k, w⟩ := e
      cases hs
      exact (hres s).2 w ((lookup_eq_some_iff hC).2 he)

/-- Laying a tree over a tree, possibly absent, fails exactly at a clash and otherwise is the
layering of the two, path by path, and a tree again.  The induction is on the upper tree. -/
theorem childLayered_of_tree (hv : Tree v) : ∀ l, (∀ w ∈ l, Tree w) → ChildLayered (some v) l := by
  induction hv with
  | @leaf v hv =>
    intro l _
    have hover : mergeChild (some v) l = .ok (some v) := by
      simp [mergeChild, mergeOver_leaf hv, Functor.map, Except.map]
    refine ⟨by simp [hover, not_clash_leaf hv], fun r hr => ?_⟩
    rw [hover] at hr
    cases hr
    exact ⟨Layered.leafAbove hv, fun w hw => by cases hw; exact Tree.leaf hv⟩
  | @object A hA hall ih =>
    intro l hl
    -- each key: an upper entry is a tree the induction covers, and no entry leaves the lower one
    have hchild : ∀ (B : List (Value × Value)), (∀ e ∈ B, Tree e.2) → TextKeyed B →
        ∀ k, ChildLayered (lookup A (.str k)) (lookup B (.str k)) := by
      intro B hBt hB k
      have hlk : ∀ w ∈ lookup B (.str k), Tree w := fun w hw =>
        hBt _ ((lookup_eq_some_iff hB).1 hw)
      cases hk : lookup A (.str k) with
      | none => exact childLayered_none hlk
      | some c => exact ih _ ((lookup_eq_some_iff hA).1 hk) _ hlk
    have hmerge : ∀ r, mergeChild (some (.object A)) l = .ok r ↔
        ∃ c, mergeEntries A (l.getD (.object [])) = .ok c ∧ r = some c := fun r =>
      mergeChild_some_eq_ok
    have herror : (∃ f, mergeChild (some (.object A)) l = .error f) ↔
        ∃ f, mergeEntries A (l.getD (.object [])) = .error f := by
      rw [except_error_iff_not_ok, except_error_iff_not_ok]
      simp only [hmerge]
      refine not_congr ⟨?_, ?_⟩
      · rintro ⟨_, c, hc, _⟩
        exact ⟨c, hc⟩
      · rintro ⟨c, hc⟩
        exact ⟨_, c, hc, rfl⟩
    -- the level below: an empty mapping, a mapping, or a leaf
    have hlevel : ∀ B, TextKeyed B → (∀ e ∈ B, Tree e.2) → l.getD (.object []) = .object B →
        (∀ x, l = some x → ∃ B', x = .object B') → (∀ k, childAt l k = lookup B (.str k)) →
        keysAt l [] = keyTexts B → ChildLayered (some (.object A)) l := by
      intro B hB hBt hget hl' hlB hkeys
      have h := childLayered_level hA hB hl' hlB hkeys (hchild B hBt hB)
      rw [hget] at herror hmerge
      refine ⟨herror.trans h.1, fun r hr => ?_⟩
      obtain ⟨c, hc, rfl⟩ := (hmerge r).1 hr
      exact ⟨(h.2 c hc).1, fun w hw => by cases hw; exact (h.2 c hc).2⟩
    cases l with
    | none => exact hlevel [] TextKeyed.nil (by simp) rfl (by simp) (fun _ => rfl) rfl
    | some w =>
      rcases (hl w rfl).cases with hleaf | ⟨B, rfl⟩
      · -- over a leaf only an empty mapping can be laid, and it leaves the leaf
        have hok : ∀ c, mergeEntries A w = .ok c ↔ A = [] ∧ c = w := fun c =>
          mergeEntries_leaf_eq_ok_iff hA hleaf
        refine ⟨?_, fun r hr => ?_⟩
        · rw [herror, clash_over_leaf hleaf, except_error_iff_not_ok]
          simp [Option.getD, hok]
        · obtain ⟨c, hc, rfl⟩ := (hmerge r).1 hr
          obtain ⟨rfl, rfl⟩ := (hok c).1 hc
          exact ⟨Layered.emptyOverLeaf hleaf, hl⟩
      · have hB := (hl _ rfl).textKeyed
        have hBt : ∀ e ∈ B, Tree e.2 := fun e he => by
          cases hl _ rfl with
          | leaf h => simp [mapping?, unfold] at h
          | object _ hall' => exact hall' e he
        exact hlevel B hB hBt rfl (fun x hx => ⟨B, (Option.some.inj hx).symm⟩)
          (fun k => childAt_object) (by simp [keysAt])

/-- Deep merge is the right-biased deep union.  Laying an ordered mapping of texts over a
tree fails exactly when at some path the upper tree holds a mapping with entries and the lower
one a leaf; otherwise the result is, path by path, the union of the two in which the upper tree
wins: its leaves, the lower leaves it does not hide, mappings elsewhere, and at each mapping the
lower keys in their order followed by the upper keys the lower mapping lacks, in theirs. -/
theorem mergeInto_layered {A : List (Value × Value)} {d : Value} (hA : Tree (.object A))
    (hd : Tree d) :
    ((∃ f, mergeInto (.object A) d = .error f) ↔ Clash (some (.object A)) (some d)) ∧
      (¬ Clash (some (.object A)) (some d) →
        ∃ r, mergeInto (.object A) d = .ok r ∧ Layered (some (.object A)) (some d) (some r)) := by
  have h := childLayered_of_tree hA (some d) (fun w hw => by cases hw; exact hd)
  have hmerge : ∀ r, mergeInto (.object A) d = .ok r ↔ mergeChild (some (.object A)) (some d) = .ok (some r) := by
    intro r
    rw [mergeChild_some_eq_ok]
    simp [mergeInto, mapping?, unfold, mergeOver]
  refine ⟨?_, fun hno => ?_⟩
  · rw [← h.1, except_error_iff_not_ok, except_error_iff_not_ok]
    simp only [hmerge]
    refine not_congr ⟨?_, ?_⟩
    · rintro ⟨r, hr⟩
      exact ⟨_, hr⟩
    · rintro ⟨r, hr⟩
      obtain ⟨c, hc, rfl⟩ := mergeChild_some_eq_ok.1 hr
      exact ⟨c, by rw [mergeChild_some_eq_ok]; exact ⟨c, hc, rfl⟩⟩
  · have hok : ¬ ∃ f, mergeChild (some (.object A)) (some d) = .error f := fun h' => hno (h.1.1 h')
    rw [except_error_iff_not_ok, Classical.not_not] at hok
    obtain ⟨o, ho⟩ := hok
    obtain ⟨c, -, rfl⟩ := mergeChild_some_eq_ok.1 ho
    exact ⟨c, (hmerge c).2 ho, (h.2 _ ho).1⟩

/-- Defaults that accept on two chains. -/
def acceptDefaults : Value :=
  Value.record [("policy", Value.record [("filter", Value.record
    [("INPUT", .str "ACCEPT"), ("FORWARD", .str "ACCEPT")])])]

/-- A configuration that names a zone and drops on input. -/
def dropInputConfig : Value :=
  Value.record [("zones", Value.record [("lan", Value.record [("interfaces", .list [.str "eth0"])])]),
    ("policy", Value.record [("filter", Value.record [("INPUT", .str "DROP")])])]

theorem dropInput_layered :
    Tree dropInputConfig ∧ Tree acceptDefaults ∧
      ((∃ f, mergeInto dropInputConfig acceptDefaults = .error f) ↔
          Clash (some dropInputConfig) (some acceptDefaults)) ∧
        (¬ Clash (some dropInputConfig) (some acceptDefaults) →
          ∃ r, mergeInto dropInputConfig acceptDefaults = .ok r ∧
            Layered (some dropInputConfig) (some acceptDefaults) (some r)) := by
  have hA : Tree dropInputConfig :=
    .record_cons (by decide)
      (.record_cons (by decide) (.record_cons (by decide) (.leaf rfl) .record_nil) .record_nil)
      (.record_cons (by decide)
        (.record_cons (by decide) (.record_cons (by decide) (.leaf rfl) .record_nil) .record_nil)
        .record_nil)
  have hd : Tree acceptDefaults :=
    .record_cons (by decide)
      (.record_cons (by decide)
        (.record_cons (by decide) (.leaf rfl) (.record_cons (by decide) (.leaf rfl) .record_nil))
        .record_nil)
      .record_nil
  exact ⟨hA, hd, mergeInto_layered hA hd⟩

end Merge

section Assoc

/-! Layering is associative in the direction the configuration sources need: when `c` can be
laid over `b` laid over `a`, then `c` laid over `b` can be laid over `a`, with the same result.
The converse fails: an empty mapping in `b` over a leaf of `a` lets a mapping of `c` with entries
fail on the left only. -/

variable {mk : List (Value × Value) → Value}

/-- The keys of three levels laid in either order: the keys of `a`, then those of `b` that `a`
lacks, then those of `c` that neither has. -/
theorem keys_assoc (a b c : List String) :
    (a ++ b.filter (· ∉ a)) ++ c.filter (· ∉ a ++ b.filter (· ∉ a)) =
      a ++ (b ++ c.filter (· ∉ b)).filter (· ∉ a) := by
  have hc : c.filter (· ∉ a ++ b.filter (· ∉ a)) = (c.filter (· ∉ b)).filter (· ∉ a) := by
    rw [List.filter_filter]
    exact List.filter_congr fun x _ => by
      by_cases ha : x ∈ a <;> by_cases hb : x ∈ b <;> simp [ha, hb]
  rw [hc, List.filter_append, List.append_assoc]

/-- One level of associativity: when every key's entries associate, the mappings do. -/
theorem mergeEntries_assoc_level (hmk : mk = .object ∨ mk = .dict) {A B C : List (Value × Value)}
    {r : Value} (hA : TextKeyed A) (hB : TextKeyed B) (hC : TextKeyed C)
    (hchild : ∀ k r, (mergeChild (lookup B (.str k)) (lookup A (.str k)) >>=
        mergeChild (lookup C (.str k))) = .ok r →
      (mergeChild (lookup C (.str k)) (lookup B (.str k)) >>=
        fun t => mergeChild t (lookup A (.str k))) = .ok r)
    (h : (mergeEntries B (mk A) >>= mergeEntries C) = .ok r) :
    ∃ S, mergeEntries C (.object B) = .ok (.object S) ∧ mergeEntries S (mk A) = .ok r := by
  obtain ⟨T, hT, hR⟩ : ∃ T, mergeEntries B (mk A) = .ok T ∧ mergeEntries C T = .ok r := by
    cases hT : mergeEntries B (mk A) with
    | error f => rw [hT] at h; cases h
    | ok T => exact ⟨T, rfl, by rwa [hT] at h⟩
  obtain ⟨T', rfl, hT', hlevelT⟩ := (mergeEntries_mapping_eq_ok_iff hmk hB hA).1 hT
  obtain ⟨R', rfl, hR', hlevelR⟩ := (mergeEntries_mapping_eq_ok_iff hmk hC hT').1 hR
  -- each key: the entries laid left to right, then reassociated
  have hsplit : ∀ k, ∃ s, mergeChild (lookup C (.str k)) (lookup B (.str k)) = .ok s ∧
      mergeChild s (lookup A (.str k)) = .ok (lookup R' (.str k)) := fun k => by
    have h := hchild k _ (by rw [hlevelT.entries k]; exact hlevelR.entries k)
    cases hs : mergeChild (lookup C (.str k)) (lookup B (.str k)) with
    | error f => rw [hs] at h; cases h
    | ok s => exact ⟨s, rfl, by rwa [hs] at h⟩
  obtain ⟨Sv, hS⟩ := (mergeEntries_mapping_isOk_iff (.inl rfl) hC hB).2 fun k =>
    (hsplit k).imp fun s hs => hs.1
  obtain ⟨S, rfl, hS', hlevelS⟩ := (mergeEntries_mapping_eq_ok_iff (.inl rfl) hC hB).1 hS
  -- the middle level holds what the first step of each key gives
  have hmid : ∀ k, mergeChild (lookup S (.str k)) (lookup A (.str k)) = .ok (lookup R' (.str k)) := by
    intro k
    obtain ⟨s, hs, hsa⟩ := hsplit k
    rw [hlevelS.entries k, Except.ok.injEq] at hs
    rwa [hs]
  refine ⟨S, hS, (mergeEntries_mapping_eq_ok_iff hmk hS' hA).2 ⟨R', rfl, hR', ?_, hmid⟩⟩
  rw [hlevelR.keys, hlevelT.keys, hlevelS.keys]
  exact keys_assoc _ _ _

theorem mergeChild_leaf {v : Value} (hv : v.mapping? = none) (l : Option Value) :
    mergeChild (some v) l = .ok (some v) := by
  simp [mergeChild, mergeOver_leaf hv, Functor.map, Except.map]

theorem mergeChild_object (inner : List (Value × Value)) (l : Option Value) :
    mergeChild (some (.object inner)) l = some <$> mergeEntries inner (l.getD (.object [])) := rfl

/-- With nothing at the top, both orders lay `b` over `a`. -/
theorem mergeChild_assoc_none {a b r : Option Value} (h : (mergeChild b a >>= mergeChild none) = .ok r) :
    (mergeChild none b >>= fun t => mergeChild t a) = .ok r := by
  cases hba : mergeChild b a with
  | error f => rw [hba] at h; cases h
  | ok t => rw [hba] at h; exact hba.trans h

/-- A tree laid on top associates with any two trees below it.  The induction is on the top
tree; under its mappings the level lemma reassociates key by key. -/
theorem mergeChild_assoc_some {w : Value} (hw : Tree w) :
    ∀ {a b r : Option Value}, (∀ x ∈ a, Tree x) → (∀ x ∈ b, Tree x) →
      (mergeChild b a >>= mergeChild (some w)) = .ok r →
      (mergeChild (some w) b >>= fun t => mergeChild t a) = .ok r := by
  induction hw with
  | @leaf v hv =>
    intro a b r _ _ h
    cases hba : mergeChild b a with
    | error f => rw [hba] at h; cases h
    | ok t =>
      rw [hba] at h
      change mergeChild (some v) t = .ok r at h
      rw [mergeChild_leaf hv] at h ⊢
      exact (mergeChild_leaf hv a).trans h
  | @object C hC hall ih =>
    intro a b r ha hb h
    have hCt : Tree (.object C) := Tree.object hC hall
    cases b with
    | none =>
      have hC0 : mergeChild (some (.object C)) none = .ok (some (.object C)) := by
        simp [mergeChild, mergeOver_none hCt, Functor.map, Except.map]
      rw [hC0]
      exact h
    | some wb =>
      rcases (hb wb rfl).cases with hleaf | ⟨B, rfl⟩
      · -- a leaf in the middle: `c` must be empty, and the leaf stays on both sides
        rw [mergeChild_leaf hleaf] at h
        change mergeChild (some (.object C)) (some wb) = .ok r at h
        rw [h]
        obtain ⟨c, hc, rfl⟩ := mergeChild_some_eq_ok.1 h
        obtain ⟨rfl, rfl⟩ := (mergeEntries_leaf_eq_ok_iff hC hleaf).1 hc
        exact mergeChild_leaf hleaf a
      · cases a with
        | none =>
          -- nothing below: the middle stays, and the result of the left side is a tree, which
          -- stays over nothing
          have hB0 : mergeChild (some (.object B)) none = .ok (some (.object B)) := by
            simp [mergeChild, mergeOver_none (hb _ rfl), Functor.map, Except.map]
          rw [hB0] at h
          change mergeChild (some (.object C)) (some (.object B)) = .ok r at h
          rw [h]
          obtain ⟨R, -, rfl⟩ := mergeChild_some_eq_ok.1 h
          have hR := ((childLayered_of_tree hCt (some (.object B)) hb).2 _ h).2 R rfl
          change mergeChild (some R) none = _
          simp [mergeChild, mergeOver_none hR, Functor.map, Except.map]
        | some wa =>
          rcases (ha wa rfl).cases with hleafA | ⟨A, rfl⟩
          · -- a leaf at the bottom: both mappings above it must be empty
            cases hBa : mergeChild (some (.object B)) (some wa) with
            | error f => rw [hBa] at h; cases h
            | ok t =>
              obtain ⟨c, hc, rfl⟩ := mergeChild_some_eq_ok.1 hBa
              obtain ⟨rfl, rfl⟩ := (mergeEntries_leaf_eq_ok_iff (hb _ rfl).textKeyed hleafA).1 hc
              rw [hBa] at h
              change mergeChild (some (.object C)) (some c) = .ok r at h
              obtain ⟨c', hc', rfl⟩ := mergeChild_some_eq_ok.1 h
              obtain ⟨rfl, rfl⟩ := (mergeEntries_leaf_eq_ok_iff hC hleafA).1 hc'
              rfl
          · -- mappings at every level: reassociate key by key
            have hA := (ha _ rfl).textKeyed
            have hB := (hb _ rfl).textKeyed
            have hchild : ∀ k r, (mergeChild (lookup B (.str k)) (lookup A (.str k)) >>=
                mergeChild (lookup C (.str k))) = .ok r →
                (mergeChild (lookup C (.str k)) (lookup B (.str k)) >>=
                  fun t => mergeChild t (lookup A (.str k))) = .ok r := by
              intro k r hk
              cases hck : lookup C (.str k) with
              | none =>
                rw [hck] at hk
                exact mergeChild_assoc_none hk
              | some e =>
                rw [hck] at hk
                exact ih _ ((lookup_eq_some_iff hC).1 hck) (fun x hx => (ha _ rfl).lookup hx)
                  (fun x hx => (hb _ rfl).lookup hx) hk
            cases hT : mergeEntries B (.object A) with
            | error f =>
              rw [mergeChild_object, Option.getD_some, hT] at h
              cases h
            | ok T =>
              rw [mergeChild_object, Option.getD_some, hT] at h
              change mergeChild (some (.object C)) (some T) = .ok r at h
              obtain ⟨R, hR, rfl⟩ := mergeChild_some_eq_ok.1 h
              obtain ⟨S, hS, hSA⟩ := mergeEntries_assoc_level (.inl rfl) hA hB hC hchild
                (by rw [hT]; exact hR)
              rw [mergeChild_object, Option.getD_some, hS]
              change mergeChild (some (.object S)) (some (.object A)) = _
              rw [mergeChild_object, Option.getD_some, hSA]
              rfl

/-- Layering trees is associative in one direction: when `c` can be laid over `b` laid over
`a`, then `c` laid over `b` can be laid over `a`, with the same result. -/
theorem mergeChild_assoc {a b c r : Option Value} (ha : ∀ w ∈ a, Tree w) (hb : ∀ w ∈ b, Tree w)
    (hc : ∀ w ∈ c, Tree w) (h : (mergeChild b a >>= mergeChild c) = .ok r) :
    (mergeChild c b >>= fun t => mergeChild t a) = .ok r := by
  cases c with
  | none => exact mergeChild_assoc_none h
  | some w => exact mergeChild_assoc_some (hc w rfl) ha hb h
end Assoc

end Value
end Firewall
