import Firewall.Proofs.Diff.Blocks

/-!
# A unified diff is empty exactly when the sequences are equal

One way, every step between matching blocks of equal lines is an equal step
only when nothing lies between the blocks; the blocks then cover both sequences
up to the closing empty block, and the sequences agree
(`eq_of_opcodes_equal`).  Grouping into hunks keeps every step that is not an
equal one (`groups_ne_nil`), so an empty diff has only equal steps.  The other
way, a sequence against itself has one block, hence one equal step and no
hunk (`groups_opcodes_self`).
-/

namespace Firewall
namespace Diff

namespace Pair

theorem oldAt_ofLists {old new : List String} {i : Nat} (h : i < old.length) :
    (ofLists old new).oldAt i = old[i] := by
  simp [ofLists, oldAt, Array.getD, h]

theorem newAt_ofLists {old new : List String} {j : Nat} (h : j < new.length) :
    (ofLists old new).newAt j = new[j] := by
  simp [ofLists, newAt, Array.getD, h]

/-- A block that fits the two sequences holds equal lines of the lists. -/
theorem Fits.getElem?_eq {old new : List String} {b : Block}
    (hb : (ofLists old new).Fits 0 old.length 0 new.length b) :
    ∀ t < b.size, old[b.old + t]? = new[b.new + t]? := by
  intro t ht
  have hi : b.old + t < old.length := by have := hb.old_hi; omega
  have hj : b.new + t < new.length := by have := hb.new_hi; omega
  rw [List.getElem?_eq_getElem hi, List.getElem?_eq_getElem hj, ← oldAt_ofLists hi,
    ← @newAt_ofLists old new _ hj, hb.equal t ht]

end Pair

section Opcodes

/-- Two lists that agree on `k` places from `i` and `j`, and after them, agree
from `i` and `j` on. -/
theorem drop_eq_of_block {old new : List String} {i j k : Nat}
    (heq : ∀ t < k, old[i + t]? = new[j + t]?)
    (hrest : old.drop (i + k) = new.drop (j + k)) : old.drop i = new.drop j := by
  apply List.ext_getElem?
  intro t
  rw [List.getElem?_drop, List.getElem?_drop]
  by_cases ht : t < k
  · exact heq t ht
  · have h := congrArg (·[t - k]?) hrest
    simp only [List.getElem?_drop] at h
    rwa [show i + k + (t - k) = i + t by omega, show j + k + (t - k) = j + t by omega] at h

/-- The steps up to a block are all equal ones only when the block starts
where the previous one ended. -/
theorem opcodesFrom_cons_equal {i j : Nat} {b : Block} {rest : List Block}
    (hi : i ≤ b.old) (hj : j ≤ b.new)
    (h : ∀ c ∈ opcodesFrom i j (b :: rest), c.tag = .equal) :
    i = b.old ∧ j = b.new ∧
      ∀ c ∈ opcodesFrom (b.old + b.size) (b.new + b.size) rest, c.tag = .equal := by
  simp only [opcodesFrom, List.mem_append] at h
  have hold : i = b.old := by
    by_contra hne
    have hlt : i < b.old := by omega
    by_cases hjb : j < b.new
    · have := h ⟨.replace, i, b.old, j, b.new⟩ (.inl (.inl (by simp [hlt, hjb])))
      cases this
    · have := h ⟨.delete, i, b.old, j, b.new⟩ (.inl (.inl (by simp [hlt, hjb])))
      cases this
  have hnew : j = b.new := by
    by_contra hne
    have hlt : j < b.new := by omega
    have := h ⟨.insert, i, b.old, j, b.new⟩ (.inl (.inl (by simp [hlt, hold])))
    cases this
  exact ⟨hold, hnew, fun c hc => h c (.inr hc)⟩

/-- When every step from `(i, j)` over blocks that fit the sequences, in order
and closed by the empty block at the ends, is an equal one, the sequences agree
from `i` and `j` on. -/
theorem drop_eq_of_opcodesFrom {old new : List String} :
    ∀ (bs : List Block) (i j : Nat),
      (∀ b ∈ bs, (Pair.ofLists old new).Fits 0 old.length 0 new.length b) →
      (⟨i, j, 0⟩ :: bs).Pairwise Block.Precedes →
      bs.getLast? = some ⟨old.length, new.length, 0⟩ →
      (∀ c ∈ opcodesFrom i j bs, c.tag = .equal) →
      old.drop i = new.drop j
  | [], _, _, _, _, hlast, _ => by simp at hlast
  | b :: rest, i, j, hfit, hord, hlast, hcodes => by
    have hpre : Block.Precedes ⟨i, j, 0⟩ b := List.rel_of_pairwise_cons hord List.mem_cons_self
    obtain ⟨rfl, rfl, hrest⟩ := opcodesFrom_cons_equal hpre.1 hpre.2 hcodes
    have hb := hfit b List.mem_cons_self
    apply drop_eq_of_block hb.getElem?_eq
    cases rest with
    | nil =>
      obtain rfl : b = ⟨old.length, new.length, 0⟩ := by simpa using hlast
      simp
    | cons c rest =>
      -- the rest starts at the end of `b`, which precedes every later block
      have hord' := (List.pairwise_cons.mp hord).2
      refine drop_eq_of_opcodesFrom (c :: rest) _ _ (fun x hx => hfit x (List.mem_cons_of_mem _ hx))
        (List.pairwise_cons.mpr ⟨fun x hx => ?_, (List.pairwise_cons.mp hord').2⟩)
        (by simpa using hlast) hrest
      simpa [Block.Precedes] using (List.pairwise_cons.mp hord').1 x hx

/-- Steps that are all equal ones turn a sequence into itself only. -/
theorem eq_of_opcodes_equal {old new : List String}
    (h : ∀ c ∈ opcodes old new, c.tag = .equal) : old = new := by
  obtain ⟨hfit, hord⟩ := (Pair.ofLists old new).blocks_fits
  have hlast : (Pair.ofLists old new).blocks.getLast? = some ⟨old.length, new.length, 0⟩ := by
    simp [Pair.blocks, Pair.ofLists]
  have hdrop := drop_eq_of_opcodesFrom _ 0 0 (by simpa [Pair.ofLists] using hfit)
    (List.pairwise_cons.mpr ⟨fun b _ => ⟨Nat.zero_le _, Nat.zero_le _⟩, hord⟩) hlast h
  simpa using hdrop

/-- A sequence against itself is one equal step, none when it is empty. -/
theorem opcodes_self (xs : List String) :
    opcodes xs xs = if xs = [] then [] else [⟨.equal, 0, xs.length, 0, xs.length⟩] := by
  unfold opcodes
  rw [Pair.blocks_self]
  split <;> simp_all [opcodesFrom]

end Opcodes

section Groups

variable {n : Nat}

/-- Hunks under way, with a change among them. -/
def Live (acc : List (List Opcode) × List Opcode) : Prop :=
  acc.1 ≠ [] ∨ ∃ c ∈ acc.2, c.tag ≠ .equal

theorem mem_trimFirst {codes : List Opcode} {c : Opcode} (hc : c ∈ codes)
    (ht : c.tag ≠ .equal) : c ∈ trimFirst n codes := by
  cases codes with
  | nil => cases hc
  | cons d rest =>
    rw [trimFirst]
    split
    · rcases List.mem_cons.mp hc with rfl | hc
      · contradiction
      · exact List.mem_cons_of_mem _ hc
    · exact hc

theorem mem_trimLast {codes : List Opcode} {c : Opcode} (hc : c ∈ codes)
    (ht : c.tag ≠ .equal) : c ∈ trimLast n codes := by
  unfold trimLast
  split
  · rename_i d hd
    split
    · have hsplit := List.dropLast_append_getLast? d hd
      rw [← hsplit] at hc
      rcases List.mem_append.mp hc with hc | hc
      · exact List.mem_append_left _ hc
      · obtain rfl := List.mem_singleton.mp hc
        contradiction
    · exact hc
  · exact hc

theorem Live.step {acc : List (List Opcode) × List Opcode} (h : Live acc) (c : Opcode) :
    Live (groupStep n acc c) := by
  unfold groupStep
  split
  · exact .inl (by simp)
  · rcases h with h | ⟨d, hd, ht⟩
    · exact .inl h
    · exact .inr ⟨d, List.mem_append_left _ hd, ht⟩

theorem live_groupStep (acc : List (List Opcode) × List Opcode) {c : Opcode}
    (ht : c.tag ≠ .equal) : Live (groupStep n acc c) := by
  unfold groupStep
  rw [if_neg (by simp [ht])]
  exact .inr ⟨c, List.mem_append_right _ (List.mem_singleton_self c), ht⟩

/-- Once a change is met, the grouping stays under way. -/
theorem live_foldl :
    ∀ (codes : List Opcode) (acc : List (List Opcode) × List Opcode),
      (Live acc ∨ ∃ c ∈ codes, c.tag ≠ .equal) → Live (codes.foldl (groupStep n) acc)
  | [], _, h => h.resolve_right (by simp)
  | c :: rest, acc, h => by
    rw [List.foldl_cons]
    apply live_foldl rest
    by_cases ht : c.tag = .equal
    · rcases h with h | ⟨d, hd, hdt⟩
      · exact .inl (h.step c)
      · rcases List.mem_cons.mp hd with rfl | hd
        · contradiction
        · exact .inr ⟨d, hd, hdt⟩
    · exact .inl (live_groupStep acc ht)

theorem closeGroups_ne_nil {acc : List (List Opcode) × List Opcode} (h : Live acc) :
    closeGroups acc ≠ [] := by
  obtain ⟨done, last⟩ := acc
  rcases h with h | ⟨c, hc, ht⟩
  · unfold closeGroups
    split <;> (try split) <;> simp_all
  · match last, hc with
    | [d], hc =>
      obtain rfl := List.mem_singleton.mp hc
      simp [closeGroups, ht]
    | _ :: _ :: _, _ => simp [closeGroups]

/-- Every change makes a hunk. -/
theorem groups_ne_nil {codes : List Opcode} {c : Opcode} (hc : c ∈ codes)
    (ht : c.tag ≠ .equal) : groups n codes ≠ [] := by
  have hne : codes.isEmpty = false := List.isEmpty_eq_false_iff.mpr (List.ne_nil_of_mem hc)
  unfold groups
  simp only [hne, Bool.false_eq_true, if_false]
  exact closeGroups_ne_nil (live_foldl _ _ (.inr ⟨c, mem_trimLast (mem_trimFirst hc ht) ht, ht⟩))

/-- A sequence against itself makes no hunk. -/
theorem groups_opcodes_self (xs : List String) : groups 3 (opcodes xs xs) = [] := by
  rw [opcodes_self]
  split
  · rfl
  · -- the one equal step, cut to its last three lines, is too short to split a hunk
    have hshort : ¬ 6 < min xs.length (xs.length - 3 + 3) - (xs.length - 3) := by omega
    simp [groups, trimFirst, trimLast, groupStep, closeGroups, Opcode.leading,
      Opcode.trailing, hshort]

end Groups

/-- The diff has lines exactly when there are hunks. -/
theorem unified_eq_nil_iff_groups {old new : List String} :
    unified old new = [] ↔ groups 3 (opcodes old new) = [] := by
  unfold unified
  split <;> simp_all

/-- A diff starts with its two header lines. -/
theorem unified_head {old new : List String} (h : unified old new ≠ []) :
    (unified old new).head? = some "--- " := by
  unfold unified at *
  split <;> simp_all

/-- The unified diff of two sequences is empty exactly when they are equal. -/
theorem unified_eq_nil_iff {old new : List String} : unified old new = [] ↔ old = new := by
  rw [unified_eq_nil_iff_groups]
  constructor
  · intro h
    exact eq_of_opcodes_equal fun c hc => by_contra fun ht => groups_ne_nil hc ht h
  · rintro rfl
    exact groups_opcodes_self old

end Diff
end Firewall
