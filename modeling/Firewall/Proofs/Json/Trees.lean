import Firewall.Json.Reader
import Firewall.Proofs.Value.Tree
import Firewall.Proofs.Zone.Basic
import Mathlib.Tactic.SplitIfs

/-!
# What a JSON document reads as

Whatever the reader returns is a configuration tree in which no container
holds itself (`Json.parse_acyclicTree`): objects are ordered mappings keyed by
texts, a repeated key kept once (`Value.entriesOfPairs`), over values of the
same kind, and everything else is a leaf.  So a document given as JSON can be
laid over the configuration like any other source.

The reader is three functions that call each other with a common fuel, and the
proof follows them: one theorem for each, by recursion on the fuel, with what
an array or an object has read so far as the invariant.
-/

namespace Firewall
namespace Value

/-- A tree in which no container holds itself: what a JSON document reads as. -/
def AcyclicTree (v : Value) : Prop := Tree v ∧ v.hasCycle = false

theorem AcyclicTree.leaf {v : Value} (hm : v.mapping? = none) (hc : v.hasCycle = false) :
    AcyclicTree v :=
  ⟨.leaf hm, hc⟩

theorem acyclicTree_str (s : String) : AcyclicTree (.str s) := .leaf rfl rfl

theorem hasCycleAll_eq_false {xs : List Value} :
    hasCycleAll xs = false ↔ ∀ x ∈ xs, x.hasCycle = false := by
  induction xs with
  | nil => simp [hasCycleAll]
  | cons x xs ih => simp [hasCycleAll, ih]

theorem hasCycleEntries_eq_false {kvs : List (Value × Value)} :
    hasCycleEntries kvs = false ↔ ∀ e ∈ kvs, e.1.hasCycle = false ∧ e.2.hasCycle = false := by
  induction kvs with
  | nil => simp [hasCycleEntries]
  | cons e kvs ih =>
    obtain ⟨k, x⟩ := e
    simp [hasCycleEntries, ih, Bool.or_eq_false_iff, and_assoc]

theorem acyclicTree_list {xs : List Value} (h : ∀ x ∈ xs, AcyclicTree x) :
    AcyclicTree (.list xs) :=
  .leaf rfl (hasCycleAll_eq_false.2 fun x hx => (h x hx).2)

/-- An entry of a mapping after a key is set is an old entry or holds the new value. -/
theorem mem_setKey {kvs : List (Value × Value)} {k v : Value} {e : Value × Value}
    (he : e ∈ setKey kvs k v) : e ∈ kvs ∨ e.2 = v := by
  unfold setKey at he
  split at he
  · obtain ⟨e', he', rfl⟩ := List.mem_map.1 he
    split
    · exact .inr rfl
    · exact .inl he'
  · rcases List.mem_append.1 he with he | he
    · exact .inl he
    · exact .inr (List.mem_singleton.1 he ▸ rfl)

/-- Pairs keyed by texts over acyclic trees, set one after the other into a mapping with the
same property, keep it. -/
theorem foldl_setKey_acyclic {ps : List (Value × Value)}
    (hps : ∀ p ∈ ps, (∃ s, p.1 = .str s) ∧ AcyclicTree p.2) :
    ∀ {acc : List (Value × Value)}, TextKeyed acc → (∀ e ∈ acc, AcyclicTree e.2) →
      TextKeyed (ps.foldl (fun acc e => setKey acc e.1 e.2) acc) ∧
        ∀ e ∈ ps.foldl (fun acc e => setKey acc e.1 e.2) acc, AcyclicTree e.2 := by
  induction ps with
  | nil => exact fun hacc hall => ⟨hacc, hall⟩
  | cons p ps ih =>
    intro acc hacc hall
    obtain ⟨⟨s, hs⟩, hp⟩ := hps p (List.mem_cons_self ..)
    obtain ⟨k, x⟩ := p
    cases hs
    refine ih (fun q hq => hps q (List.mem_cons_of_mem _ hq)) hacc.setKey fun e he => ?_
    rcases mem_setKey he with he | he
    · exact hall e he
    · exact he ▸ hp

/-- The mapping of an object's pairs, a repeated key kept once, is an acyclic tree. -/
theorem acyclicTree_entriesOfPairs {ps : List (Value × Value)}
    (hps : ∀ p ∈ ps, (∃ s, p.1 = .str s) ∧ AcyclicTree p.2) :
    AcyclicTree (.object (entriesOfPairs ps)) := by
  obtain ⟨hkeyed, hall⟩ := foldl_setKey_acyclic hps TextKeyed.nil (by simp)
  refine ⟨.object hkeyed fun e he => (hall e he).1, ?_⟩
  refine hasCycleEntries_eq_false.2 fun e he => ⟨?_, (hall e he).2⟩
  obtain ⟨s, hs⟩ := hkeyed.1 e he
  rw [hs]
  rfl

end Value

namespace Json

open Value

/-- A number reads as a leaf. -/
theorem readNumber_acyclicTree {cur next : Cursor} {v : Value}
    (h : readNumber cur = .ok (v, next)) : AcyclicTree v := by
  unfold readNumber at h
  split at h
  simp only at h
  -- every branch that does not fail gives an integer or a float
  split_ifs at h <;>
    (obtain ⟨rfl, -⟩ := Prod.mk.inj (Except.ok.inj h); exact .leaf rfl rfl)

mutual

theorem readValue_acyclicTree : ∀ {fuel depth : Nat} {cur next : Cursor} {v : Value},
    readValue fuel depth cur = .ok (v, next) → AcyclicTree v
  | 0, _, _, _, _, h => by simp [readValue] at h
  | fuel + 1, depth, cur, next, v, h => by
    rw [readValue] at h
    split at h
    · -- a text
      obtain ⟨⟨s, c⟩, -, h⟩ := except_bind_eq_ok.1 h
      cases h
      exact acyclicTree_str s
    · split at h
      · cases h
      · exact readObject_acyclicTree (by simp) h
    · split at h
      · cases h
      · exact readArray_acyclicTree (by simp) h
    · -- a word or a number
      split_ifs at h
      all_goals first
        | (obtain ⟨rfl, -⟩ := Prod.mk.inj (Except.ok.inj h); exact .leaf rfl rfl)
        | exact readNumber_acyclicTree h

theorem readArray_acyclicTree : ∀ {fuel depth : Nat} {cur next : Cursor} {first : Bool}
    {acc : List Value} {v : Value}, (∀ x ∈ acc, AcyclicTree x) →
    readArray fuel depth cur first acc = .ok (v, next) → AcyclicTree v
  | 0, _, _, _, _, _, _, _, h => by simp [readArray] at h
  | fuel + 1, depth, cur, next, first, acc, v, hacc, h => by
    rw [readArray] at h
    split at h
    · split at h
      · cases h
        exact acyclicTree_list (by simp)
      · cases h
    · obtain ⟨⟨x, c⟩, hx, h⟩ := except_bind_eq_ok.1 h
      have hx := readValue_acyclicTree hx
      -- the members read so far, with the new one in front
      have hacc' : ∀ y ∈ x :: acc, AcyclicTree y := List.forall_mem_cons.2 ⟨hx, hacc⟩
      simp only at h
      split at h
      · cases h
        exact acyclicTree_list fun y hy => hacc' y (List.mem_reverse.1 hy)
      · exact readArray_acyclicTree hacc' h
      · cases h

theorem readObject_acyclicTree : ∀ {fuel depth : Nat} {cur next : Cursor} {first : Bool}
    {acc : List (Value × Value)} {v : Value},
    (∀ p ∈ acc, (∃ s, p.1 = .str s) ∧ AcyclicTree p.2) →
    readObject fuel depth cur first acc = .ok (v, next) → AcyclicTree v
  | 0, _, _, _, _, _, _, _, h => by simp [readObject] at h
  | fuel + 1, depth, cur, next, first, acc, v, hacc, h => by
    rw [readObject] at h
    split at h
    · split at h
      · cases h
        exact ⟨.object TextKeyed.nil (by simp), rfl⟩
      · cases h
    · obtain ⟨⟨k, c⟩, -, h⟩ := except_bind_eq_ok.1 h
      simp only at h
      split at h
      · obtain ⟨⟨x, c'⟩, hx, h⟩ := except_bind_eq_ok.1 h
        have hx := readValue_acyclicTree hx
        -- the pairs read so far, with the new one in front
        have hacc' : ∀ p ∈ (Value.str k, x) :: acc, (∃ s, p.1 = .str s) ∧ AcyclicTree p.2 :=
          List.forall_mem_cons.2 ⟨⟨⟨k, rfl⟩, hx⟩, hacc⟩
        simp only at h
        split at h
        · cases h
          exact acyclicTree_entriesOfPairs fun p hp => hacc' p (List.mem_reverse.1 hp)
        · exact readObject_acyclicTree hacc' h
        · cases h
      · cases h
    · cases h

end

/-- Every JSON document reads as an acyclic configuration tree. -/
theorem parse_acyclicTree {text : String} {v : Value} (h : parse text = .ok v) : AcyclicTree v := by
  unfold parse parseWithDepth at h
  simp only at h
  split at h
  · cases h
  · split at h
    · cases h
    · cases h
    · cases h
    · split at h
      · cases h
        exact readValue_acyclicTree (by assumption)
      · cases h

end Json
end Firewall
