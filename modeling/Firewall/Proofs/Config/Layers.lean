import Firewall.Proofs.Store.Merge
import Firewall.Proofs.Json.Trees
import Firewall.Config.Defaults

/-!
# Layered configuration sources

The configuration is read from up to three sources: the defaults, a file, and
a JSON text given when the program is run.  `Config.layer` lays each over the
ones below it, in place, on stores.

Laying trees is associative (`Value.mergeChild_assoc`): when the override can
be laid over the file laid over the defaults, it can first be laid over the
file alone, and that result laid over the defaults gives the same value.  So an
override given as JSON gives the configuration that a file holding the
override laid over its own content gives (`Config.layering_associates`).

The two runs work on stores; `Doc.merge_agrees` takes each merge down to
values, where the sources are trees or, for a source that counts as false, an
empty plain mapping (`Value.Source`), and associativity at the root finishes.
-/

namespace Firewall
namespace Value

section Sources

variable {v : Value}

/-- A source as it is laid: a tree, or the entries of a tree in a plain mapping, which is
what a source that counts as false becomes (`Value.orEmpty`). -/
def Source (v : Value) : Prop := Tree v ∨ ∃ A, v = .dict A ∧ Tree (.object A)

theorem Tree.source (h : Tree v) : Source v := .inl h

theorem Tree.orEmpty (h : Tree v) : Source v.orEmpty := by
  unfold Value.orEmpty
  split
  · exact .inl h
  · exact .inr ⟨[], rfl, .object TextKeyed.nil (by simp)⟩

theorem Source.rooted (h : Source v) : Rooted v := by
  rcases h with h | ⟨A, rfl, hA⟩
  · exact h.rooted
  · exact rooted_dict hA

/-- A source is a leaf, or a mapping of either kind over a tree's entries. -/
theorem Source.cases (h : Source v) :
    v.mapping? = none ∨
      ∃ (mk : List (Value × Value) → Value) (A : List (Value × Value)),
        (mk = .object ∨ mk = .dict) ∧ v = mk A ∧ Tree (.object A) := by
  rcases h with h | ⟨A, rfl, hA⟩
  · rcases h.cases with hleaf | ⟨A, rfl⟩
    · exact .inl hleaf
    · exact .inr ⟨.object, A, .inl rfl, rfl, h⟩
  · exact .inr ⟨.dict, A, .inr rfl, rfl, hA⟩

theorem mapping?_mk {mk : List (Value × Value) → Value} (hmk : mk = .object ∨ mk = .dict)
    (A : List (Value × Value)) : (mk A).mapping? = some A := by
  rcases hmk with rfl | rfl <;> rfl

theorem mergeInto_of_mapping {u : Value} {A : List (Value × Value)} (h : u.mapping? = some A)
    (lower : Value) : mergeInto u lower = mergeEntries A lower := by
  unfold mergeInto
  rw [h]

/-- A value that counts as false and is a mapping has no entries, so putting an empty plain
mapping in its place keeps its entries. -/
theorem mapping?_orEmpty {A : List (Value × Value)} (h : v.mapping? = some A) :
    v.orEmpty.mapping? = some A := by
  unfold Value.orEmpty
  split
  · exact h
  · -- only an empty mapping counts as false among the mappings
    cases v <;> simp_all [mapping?, unfold, truthy]

end Sources

section Root

variable {mk : List (Value × Value) → Value}

/-- A mapping laid over another gives one of the lower one's kind, with the same entries
whichever kind that is. -/
theorem mergeEntries_kind (hmk : mk = .object ∨ mk = .dict) {B C S : List (Value × Value)}
    (hB : Tree (.object B)) (hC : Tree (.object C))
    (h : mergeEntries C (.object B) = .ok (.object S)) : mergeEntries C (mk B) = .ok (mk S) := by
  obtain ⟨S', hS', hkeyed, hlevel⟩ :=
    (mergeEntries_mapping_eq_ok_iff (.inl rfl) hC.textKeyed hB.textKeyed).1 h
  obtain rfl : S = S' := Value.object.inj hS'
  exact (mergeEntries_mapping_eq_ok_iff hmk hC.textKeyed hB.textKeyed).2 ⟨S, rfl, hkeyed, hlevel⟩

/-- Associativity at the root, over a mapping of either kind at the bottom. -/
theorem mergeEntries_assoc_root (hmk : mk = .object ∨ mk = .dict) {A B C : List (Value × Value)}
    {r : Value} (hA : Tree (.object A)) (hB : Tree (.object B)) (hC : Tree (.object C))
    (h : (mergeEntries B (mk A) >>= mergeEntries C) = .ok r) :
    ∃ S, mergeEntries C (.object B) = .ok (.object S) ∧ mergeEntries S (mk A) = .ok r :=
  mergeEntries_assoc_level hmk hA.textKeyed hB.textKeyed hC.textKeyed
    (fun _ _ hk => mergeChild_assoc (fun _ hw => hA.lookup hw) (fun _ hw => hB.lookup hw)
      (fun _ hw => hC.lookup hw) hk) h

/-- Three sources laid in either order.  When the top one can be laid over the middle one
laid over the bottom one, the top one can be laid over the middle one alone; and any value
with the entries of that result, laid over the bottom one, gives the same value. -/
theorem mergeInto_assoc_source {a b c l : Value} (ha : Source a) (hb : Source b) (hc : Tree c)
    (h : (mergeInto b a >>= mergeInto c) = .ok l) :
    ∃ r S, mergeInto c b = .ok r ∧ r.mapping? = some S ∧
      ∀ {r' : Value}, r'.mapping? = some S → mergeInto r' a = .ok l := by
  obtain ⟨w, hw, hl⟩ := except_bind_eq_ok.1 h
  -- the middle and the top source are mappings, or the left side fails
  obtain ⟨mkb, B, hmkb, rfl, hB⟩ := hb.cases.resolve_left fun hleaf => by
    simp [mergeInto, hleaf] at hw
  obtain ⟨mkc, C, hmkc, rfl, hC⟩ := hc.source.cases.resolve_left fun hleaf => by
    simp [mergeInto, hleaf] at hl
  rw [mergeInto_of_mapping (mapping?_mk hmkb B)] at hw
  rw [mergeInto_of_mapping (mapping?_mk hmkc C)] at hl ⊢
  rcases ha.cases with hleaf | ⟨mka, A, hmka, rfl, hA⟩
  · -- a leaf at the bottom: both mappings above it are empty, and the leaf stays
    obtain ⟨rfl, rfl⟩ := (mergeEntries_leaf_eq_ok_iff hB.textKeyed hleaf).1 hw
    obtain ⟨rfl, rfl⟩ := (mergeEntries_leaf_eq_ok_iff hC.textKeyed hleaf).1 hl
    refine ⟨mkb [], [], mergeEntries_nil _, mapping?_mk hmkb [], fun hr' => ?_⟩
    rw [mergeInto_of_mapping hr', mergeEntries_nil]
  · obtain ⟨S, hS, hSA⟩ := mergeEntries_assoc_root hmka hA hB hC (by rw [hw]; exact hl)
    refine ⟨mkb S, S, mergeEntries_kind hmkb hB hC hS, mapping?_mk hmkb S, fun hr' => ?_⟩
    rw [mergeInto_of_mapping hr']
    exact hSA

end Root

end Value

namespace Config

open Value

variable {D F : Doc} {path : String}

/-- Defaults, a file and an override given as JSON, laid in turn. -/
theorem layer_with_json {text : String} :
    layer (.ok D) (some (.ok F)) path (some text) =
      (Doc.merge F.orEmpty D.orEmpty >>= fun W =>
        Json.parse text >>= fun c => Doc.merge (Doc.ofValue c) W) :=
  rfl

/-- Defaults and a file, laid in turn. -/
theorem layer_without_json : layer (.ok D) (some (.ok F)) path none = Doc.merge F.orEmpty D.orEmpty := by
  show (Doc.merge F.orEmpty D.orEmpty >>= fun W => pure W) = _
  exact bind_pure _

/-- Laying configuration trees is associative: when `c` laid over `b` laid over `a` succeeds,
`c` laid over `b`, then over `a`, succeeds with the same value.  Hence an override given as
JSON, over a file and defaults that hold trees, gives the configuration that the defaults
and a file holding the override laid over the file's content give. -/
theorem layering_associates :
    (∀ {a b c l : Value}, Tree a → Tree b → Tree c → (mergeInto b a >>= mergeInto c) = .ok l →
      (mergeInto c b >>= fun t => mergeInto t a) = .ok l) ∧
    (∀ {D F L : Doc} {a b : Value} {path text : String}, D.Holds a → Tree a → F.Holds b → Tree b →
      layer (.ok D) (some (.ok F)) path (some text) = .ok L →
      ∃ c r, Json.parse text = .ok c ∧ mergeInto c b.orEmpty = .ok r ∧
        ∀ {F' : Doc} {r' : Value}, F'.Holds r' → Tree r' → r'.mapping? = r.mapping? →
          ∃ R, layer (.ok D) (some (.ok F')) path none = .ok R ∧ R.read = L.read) := by
  refine ⟨fun ha hb hc h => ?_, fun hD ha hF hb h => ?_⟩
  · obtain ⟨r, S, hr, hS, hra⟩ := mergeInto_assoc_source ha.source hb.source hc h
    rw [hr]
    exact hra hS
  · rw [layer_with_json] at h
    obtain ⟨W, hW, h⟩ := except_bind_eq_ok.1 h
    obtain ⟨c, hparse, hL⟩ := except_bind_eq_ok.1 h
    have hc := Json.parse_acyclicTree hparse
    -- the file over the defaults, then the override over both, each in place
    obtain ⟨w, hw, hWw, hwr⟩ := (Doc.merge_agrees (Doc.orEmpty_holds hF) hb.orEmpty.rooted
      (Doc.orEmpty_holds hD) ha.orEmpty.rooted).ok_left hW
    obtain ⟨l, hl, hLl, -⟩ :=
      (Doc.merge_agrees (Doc.ofValue_holds hc.2) hc.1.rooted hWw hwr).ok_left hL
    obtain ⟨r, S, hr, hS, hra⟩ :=
      mergeInto_assoc_source ha.orEmpty hb.orEmpty hc.1 (by rw [hw]; exact hl)
    refine ⟨c, r, hparse, hr, fun hF' hr' hmap => ?_⟩
    -- the edited file over the defaults
    obtain ⟨R, hR, hRl, -⟩ := (Doc.merge_agrees (Doc.orEmpty_holds hF') hr'.orEmpty.rooted
      (Doc.orEmpty_holds hD) ha.orEmpty.rooted).ok_right (hra (mapping?_orEmpty (hmap.trans hS)))
    refine ⟨R, by rw [layer_without_json]; exact hR, ?_⟩
    rw [Doc.read_eq_of_holds hRl, Doc.read_eq_of_holds hLl]

theorem tree_acceptDefaults : Tree acceptDefaults :=
  .record_cons (by decide)
    (.record_cons (by decide)
      (.record_cons (by decide) (.leaf rfl) (.record_cons (by decide) (.leaf rfl) .record_nil))
      .record_nil)
    .record_nil

theorem tree_dropInputConfig : Tree dropInputConfig :=
  .record_cons (by decide)
    (.record_cons (by decide) (.record_cons (by decide) (.leaf rfl) .record_nil) .record_nil)
    (.record_cons (by decide)
      (.record_cons (by decide) (.record_cons (by decide) (.leaf rfl) .record_nil) .record_nil)
      .record_nil)

/-- An override that drops forwarded packets. -/
def forwardDrop : Value :=
  Value.record [("policy", Value.record [("filter", Value.record [("FORWARD", .str "DROP")])])]

theorem tree_forwardDrop : Tree forwardDrop :=
  .record_cons (by decide)
    (.record_cons (by decide) (.record_cons (by decide) (.leaf rfl) .record_nil) .record_nil)
    .record_nil

/-- The same override, as it is given on the command line. -/
def forwardDropJson : String :=
  "\x7b\"policy\": \x7b\"filter\": \x7b\"FORWARD\": \"DROP\"\x7d\x7d\x7d"

theorem forwardDrop_layers_either_way :
    (∃ l, (mergeInto dropInputConfig acceptDefaults >>= mergeInto forwardDrop) = .ok l ∧
      (mergeInto forwardDrop dropInputConfig >>= fun t => mergeInto t acceptDefaults) = .ok l) ∧
    ∃ L, layer (.ok (Doc.ofValue acceptDefaults)) (some (.ok (Doc.ofValue dropInputConfig)))
        "config.yml" (some forwardDropJson) = .ok L ∧
      ∃ c r, Json.parse forwardDropJson = .ok c ∧ mergeInto c dropInputConfig.orEmpty = .ok r ∧
        ∀ {F' : Doc} {r' : Value}, F'.Holds r' → Tree r' → r'.mapping? = r.mapping? →
          ∃ R, layer (.ok (Doc.ofValue acceptDefaults)) (some (.ok F')) "config.yml" none = .ok R ∧
            R.read = L.read := by
  refine ⟨?_, ?_⟩
  · have hok : (mergeInto dropInputConfig acceptDefaults >>= mergeInto forwardDrop).isOk = true := by
      decide +kernel
    cases h : (mergeInto dropInputConfig acceptDefaults >>= mergeInto forwardDrop) with
    | ok l =>
      exact ⟨l, rfl, layering_associates.1 tree_acceptDefaults tree_dropInputConfig tree_forwardDrop h⟩
    | error f => rw [h] at hok; cases hok
  · have hok : (layer (.ok (Doc.ofValue acceptDefaults)) (some (.ok (Doc.ofValue dropInputConfig)))
        "config.yml" (some forwardDropJson)).isOk = true := by
      decide +kernel
    cases h : layer (.ok (Doc.ofValue acceptDefaults)) (some (.ok (Doc.ofValue dropInputConfig)))
        "config.yml" (some forwardDropJson) with
    | ok L =>
      exact ⟨L, rfl, layering_associates.2 (Doc.ofValue_holds rfl) tree_acceptDefaults
        (Doc.ofValue_holds rfl) tree_dropInputConfig h⟩
    | error f => rw [h] at hok; cases hok

end Config
end Firewall
