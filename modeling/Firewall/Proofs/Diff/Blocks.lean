import Mathlib.Data.List.Chain
import Firewall.Diff.Unified

/-!
# Matching blocks hold equal lines

The search for the longest block is a table of runs: row `i` of the old
sequence records, at each position `j` of the new one that anchors a match,
the length of the run of equal lines ending there (`runAt`).  Reading the
search through `runAt`, each block it finds holds equal lines and lies within
its ranges, and so does every block of `blocksWithin`: they come in order, each
after the end of the one before (`blocksWithin_fits`).

On two equal sequences the search stays on the diagonal: a run ending at
`(i, j)` is no longer than the diagonal runs ending at `(i, i)` and `(j, j)`,
and the diagonal ones are met first, so the block found is diagonal, and
growing it over equal lines gives the whole sequence (`longest_self`).
-/

namespace Firewall
namespace Diff

/-- Two blocks in order: the second starts at or after the end of the first,
in both sequences. -/
def Block.Precedes (a b : Block) : Prop := a.old + a.size ≤ b.old ∧ a.new + a.size ≤ b.new

namespace Pair

variable (p : Pair)

/-- A block of equal lines within the ranges `[oldLo, oldHi)` and
`[newLo, newHi)`. -/
structure Fits (oldLo oldHi newLo newHi : Nat) (b : Block) : Prop where
  old_lo : oldLo ≤ b.old
  old_hi : b.old + b.size ≤ oldHi
  new_lo : newLo ≤ b.new
  new_hi : b.new + b.size ≤ newHi
  equal : ∀ t < b.size, p.oldAt (b.old + t) = p.newAt (b.new + t)

section Runs

variable (oldLo newLo newHi : Nat)

/-- The length of the run of matching lines that ends at line `i` of the old and
line `j` of the new sequence: lines that are equal and not popular, within the
rows from `oldLo` and the range `[newLo, newHi)`. -/
def runAt : Nat → Nat → Nat
  | i + 1, j + 1 =>
    if j + 1 ∈ p.positions (p.oldAt (i + 1)) newLo newHi then
      (if oldLo ≤ i then runAt i j else 0) + 1
    else 0
  | i, j => if j ∈ p.positions (p.oldAt i) newLo newHi then 1 else 0

/-- The runs the row before `i` recorded: none before the first row. -/
def runBefore (i j : Nat) : Nat := if oldLo < i then p.runAt oldLo newLo newHi (i - 1) j else 0

/-- The block that a run ending at `(i, j)` makes the best one, if it is longer. -/
def improve (i : Nat) (b : Block) (j : Nat) : Block :=
  let k := p.runAt oldLo newLo newHi i j
  if k > b.size then ⟨i + 1 - k, j + 1 - k, k⟩ else b

theorem mem_positions {line : String} {j : Nat} :
    j ∈ p.positions line newLo newHi ↔
      p.popular.contains line = false ∧ newLo ≤ j ∧ j < newHi ∧ p.newAt j = line := by
  unfold positions
  split
  · next h => simp only [List.not_mem_nil, h, Bool.true_eq_false, false_and]
  · next h =>
      simp only [Bool.not_eq_true] at h
      simp only [List.mem_filter, List.mem_range'_1, beq_iff_eq, h, true_and]
      constructor
      · rintro ⟨⟨h1, h2⟩, h3⟩
        exact ⟨h1, by omega, h3⟩
      · rintro ⟨h1, h2, h3⟩
        exact ⟨⟨h1, by omega⟩, h3⟩

/-- A run is recorded exactly at the positions of its row. -/
theorem runAt_pos_iff {i j : Nat} :
    0 < p.runAt oldLo newLo newHi i j ↔ j ∈ p.positions (p.oldAt i) newLo newHi := by
  cases i <;> cases j <;> simp only [runAt] <;> split <;> simp_all

/-- The row before row `i + 1` is row `i`, when it is not before `oldLo`. -/
theorem runBefore_succ (i j : Nat) :
    p.runBefore oldLo newLo newHi (i + 1) j = if oldLo ≤ i then p.runAt oldLo newLo newHi i j else 0 := by
  unfold runBefore
  rw [Nat.add_sub_cancel]
  by_cases h : oldLo ≤ i
  · rw [if_pos (by omega), if_pos h]
  · rw [if_neg (by omega), if_neg h]

/-- A run is one longer than the run the row before recorded at the position
before. -/
theorem runAt_eq {i j : Nat} (hj : j ∈ p.positions (p.oldAt i) newLo newHi) :
    p.runAt oldLo newLo newHi i j = (if j = 0 then 0 else p.runBefore oldLo newLo newHi i (j - 1)) + 1 := by
  cases i with
  | zero => cases j <;> simp [runAt, runBefore, hj]
  | succ i =>
      cases j with
      | zero => simp [runAt, hj]
      | succ j => simp [runAt, runBefore_succ, hj]

/-- A run from a row at or after `oldLo` lies within the ranges and holds equal
lines. -/
theorem runAt_fits {i j : Nat} (hi : oldLo ≤ i) (h : 0 < p.runAt oldLo newLo newHi i j) :
    p.runAt oldLo newLo newHi i j ≤ i + 1 - oldLo ∧ p.runAt oldLo newLo newHi i j ≤ j + 1 - newLo ∧
      j < newHi ∧ ∀ t < p.runAt oldLo newLo newHi i j, p.oldAt (i - t) = p.newAt (j - t) := by
  induction i generalizing j with
  | zero =>
      have hj := (runAt_pos_iff p oldLo newLo newHi).mp h
      obtain ⟨-, hlo, hhi, heq⟩ := (mem_positions p newLo newHi).mp hj
      have h1 : p.runAt oldLo newLo newHi 0 j = 1 := by
        rw [runAt_eq p oldLo newLo newHi hj]
        simp [runBefore]
      rw [h1]
      refine ⟨by omega, by omega, hhi, fun t ht => ?_⟩
      obtain rfl : t = 0 := by omega
      simp [heq]
  | succ i ih =>
      have hj := (runAt_pos_iff p oldLo newLo newHi).mp h
      obtain ⟨-, hlo, hhi, heq⟩ := (mem_positions p newLo newHi).mp hj
      rw [runAt_eq p oldLo newLo newHi hj]
      simp only [runBefore, Nat.add_sub_cancel]
      -- the run continues the one at `(i, j - 1)` when that row is searched
      by_cases hc : j ≠ 0 ∧ oldLo < i + 1 ∧ 0 < p.runAt oldLo newLo newHi i (j - 1)
      · obtain ⟨hj0, hlt, hpos⟩ := hc
        obtain ⟨h1, h2, -, h4⟩ := ih (by omega) hpos
        simp only [hj0, if_false, hlt, if_true]
        refine ⟨by omega, by omega, hhi, fun t ht => ?_⟩
        rcases t with _ | t
        · simp [heq]
        · have := h4 t (by omega)
          rw [show i + 1 - (t + 1) = i - t by omega, show j - (t + 1) = j - 1 - t by omega]
          exact this
      · have h0 : (if j = 0 then 0 else if oldLo < i + 1 then p.runAt oldLo newLo newHi i (j - 1)
            else 0) = 0 := by
          split
          · rfl
          · split
            · omega
            · rfl
        rw [h0]
        refine ⟨by omega, by omega, hhi, fun t ht => ?_⟩
        obtain rfl : t = 0 := by omega
        simp [heq]

end Runs

section Folds

variable {α β γ : Type}

/-- A fold that records an entry for each item and updates a state with it
records the entries newest first and folds the state alone. -/
theorem foldl_record (entry : α → β) (upd : γ → α → γ) :
    ∀ (xs : List α) (l : List β) (g : γ),
      xs.foldl (fun acc x => (entry x :: acc.1, upd acc.2 x)) (l, g) =
        ((xs.map entry).reverse ++ l, xs.foldl upd g)
  | [], _, _ => rfl
  | x :: xs, l, g => by
      rw [List.foldl_cons, foldl_record entry upd xs]
      simp

/-- Two folds whose steps agree on the items folded agree. -/
theorem foldl_congr {f f' : γ → α → γ} :
    ∀ {xs : List α} (g : γ), (∀ x ∈ xs, ∀ g, f g x = f' g x) → xs.foldl f g = xs.foldl f' g
  | [], _, _ => rfl
  | x :: xs, g, h => by
      rw [List.foldl_cons, List.foldl_cons, h x List.mem_cons_self g]
      exact foldl_congr _ fun y hy => h y (List.mem_cons_of_mem _ hy)

/-- What every step keeps, the fold keeps. -/
theorem foldl_keeps {f : γ → α → γ} (P : γ → Prop) :
    ∀ {xs : List α} {g : γ}, (∀ x ∈ xs, ∀ g, P g → P (f g x)) → P g → P (xs.foldl f g)
  | [], _, _, hg => hg
  | x :: xs, g, h, hg => by
      rw [List.foldl_cons]
      exact foldl_keeps P (fun y hy => h y (List.mem_cons_of_mem _ hy)) (h x List.mem_cons_self g hg)

/-- A table of entries each of which holds the value of `f` at its key: looking
a key up gives `f` there, or nothing for a key it lacks. -/
theorem lookup_getD_of_values {f : Nat → Nat} {x : Nat} :
    ∀ {l : List (Nat × Nat)}, (∀ e ∈ l, e.2 = f e.1) →
      (l.lookup x).getD 0 = if x ∈ l.map Prod.fst then f x else 0
  | [], _ => by simp
  | (k, b) :: l, h => by
      rw [List.lookup_cons]
      cases hx : x == k with
      | true =>
          obtain rfl := beq_iff_eq.mp hx
          simpa using h (x, b) List.mem_cons_self
      | false =>
          have hne : x ≠ k := by simpa using hx
          rw [lookup_getD_of_values fun e he => h e (List.mem_cons_of_mem _ he), List.map_cons]
          -- `x` is not the first key, so it is a key of the rest exactly when of the whole
          split <;> split
          · rfl
          · next h1 h2 => exact absurd (List.mem_cons_of_mem _ h1) h2
          · next h1 h2 => exact absurd ((List.mem_cons.mp h2).resolve_left hne) h1
          · rfl

end Folds

section Row

variable (oldLo newLo newHi : Nat) {i : Nat} {prev : List (Nat × Nat)}

/-- A row of the search, given the runs of the row before: the runs at its
positions, newest first, and the best block improved by each in turn. -/
theorem row_eq (best : Block)
    (hprev : ∀ x, (prev.lookup x).getD 0 = p.runBefore oldLo newLo newHi i x) :
    p.row newLo newHi i prev best =
      (((p.positions (p.oldAt i) newLo newHi).map fun j => (j, p.runAt oldLo newLo newHi i j)).reverse,
        (p.positions (p.oldAt i) newLo newHi).foldl (p.improve oldLo newLo newHi i) best) := by
  -- each step records the run at its position, computed from the row before
  have hk : ∀ j ∈ p.positions (p.oldAt i) newLo newHi,
      (if j = 0 then 0 else (prev.lookup (j - 1)).getD 0) + 1 = p.runAt oldLo newLo newHi i j := by
    intro j hj
    rw [runAt_eq p oldLo newLo newHi hj, hprev]
  unfold row
  refine (foldl_record (fun j => (j, (if j = 0 then 0 else (prev.lookup (j - 1)).getD 0) + 1))
    (fun b j => let k := (if j = 0 then 0 else (prev.lookup (j - 1)).getD 0) + 1
      if k > b.size then ⟨i + 1 - k, j + 1 - k, k⟩ else b) _ [] best).trans ?_
  rw [List.append_nil]
  congr 1
  · rw [List.map_congr_left fun j hj => by rw [hk j hj]]
  · exact foldl_congr best fun j hj g => by simp only [improve, hk j hj]

/-- The runs of a row, looked up by position. -/
theorem lookup_row (x : Nat) :
    ((((p.positions (p.oldAt i) newLo newHi).map fun j =>
        (j, p.runAt oldLo newLo newHi i j)).reverse.lookup x).getD 0) =
      p.runAt oldLo newLo newHi i x := by
  rw [lookup_getD_of_values (f := p.runAt oldLo newLo newHi i) fun e he => by
    obtain ⟨j, -, rfl⟩ := List.mem_map.mp (List.mem_reverse.mp he)
    rfl]
  simp only [List.map_reverse, List.map_map, List.mem_reverse]
  split
  · rfl
  · next hx =>
      have : x ∉ p.positions (p.oldAt i) newLo newHi := by simpa using hx
      rw [← runAt_pos_iff p oldLo newLo newHi] at this
      omega

end Row


section Search

variable (oldLo oldHi newLo newHi : Nat)

/-- The search over the rows from `oldLo`: after `k` rows it holds the runs of
the last row, and its best block has every property that holds of the first
one and that each row keeps. -/
theorem rows_fold {Q : Nat → Block → Prop} (h0 : Q oldLo ⟨oldLo, newLo, 0⟩)
    (hstep : ∀ i b, oldLo ≤ i → i < oldHi → Q i b →
      Q (i + 1) ((p.positions (p.oldAt i) newLo newHi).foldl (p.improve oldLo newLo newHi i) b)) :
    ∀ k ≤ oldHi - oldLo,
      (∀ x, ((((List.range' oldLo k).foldl (fun acc i => p.row newLo newHi i acc.1 acc.2)
          (([], ⟨oldLo, newLo, 0⟩) : List (Nat × Nat) × Block)).1.lookup x).getD 0) =
        p.runBefore oldLo newLo newHi (oldLo + k) x) ∧
      Q (oldLo + k) ((List.range' oldLo k).foldl (fun acc i => p.row newLo newHi i acc.1 acc.2)
          (([], ⟨oldLo, newLo, 0⟩) : List (Nat × Nat) × Block)).2
  | 0, _ => ⟨fun x => by simp [runBefore], h0⟩
  | k + 1, hk => by
      obtain ⟨hprev, hq⟩ := rows_fold h0 hstep k (by omega)
      rw [List.range'_concat, Nat.one_mul, List.foldl_append, List.foldl_cons, List.foldl_nil,
        row_eq p oldLo newLo newHi _ hprev]
      refine ⟨fun x => ?_, by simpa [Nat.add_assoc] using hstep _ _ (by omega) (by omega) hq⟩
      rw [lookup_row]
      simp [runBefore]

/-- A row keeps a block that fits: each block it takes holds a run. -/
theorem improve_fits {i : Nat} (hlo : oldLo ≤ i) (hhi : i < oldHi) {b : Block}
    (hb : p.Fits oldLo oldHi newLo newHi b) :
    p.Fits oldLo oldHi newLo newHi
      ((p.positions (p.oldAt i) newLo newHi).foldl (p.improve oldLo newLo newHi i) b) := by
  refine foldl_keeps _ (fun j _ b hb => ?_) hb
  unfold improve
  dsimp only
  split
  · next hk =>
      obtain ⟨h1, h2, h3, h4⟩ := runAt_fits p oldLo newLo newHi hlo
        (show 0 < p.runAt oldLo newLo newHi i j by omega)
      refine ⟨by dsimp only; omega, by dsimp only; omega, by dsimp only; omega, by dsimp only; omega,
        fun t ht => ?_⟩
      dsimp only at ht ⊢
      have := h4 (p.runAt oldLo newLo newHi i j - 1 - t) (by omega)
      rwa [show i - (p.runAt oldLo newLo newHi i j - 1 - t) = i + 1 - p.runAt oldLo newLo newHi i j + t
        by omega, show j - (p.runAt oldLo newLo newHi i j - 1 - t) =
          j + 1 - p.runAt oldLo newLo newHi i j + t by omega] at this
  · exact hb

/-- Growing a block backwards over equal lines keeps it fitting. -/
theorem growBack_fits {b : Block} (hb : p.Fits oldLo oldHi newLo newHi b) :
    ∀ fuel, p.Fits oldLo oldHi newLo newHi (p.growBack oldLo newLo fuel b) := by
  intro fuel
  induction fuel generalizing b with
  | zero => exact hb
  | succ fuel ih =>
      unfold growBack
      split
      · next hc =>
          simp only [Bool.and_eq_true, decide_eq_true_eq, beq_iff_eq] at hc
          obtain ⟨⟨h1, h2⟩, h3⟩ := hc
          refine ih ⟨by dsimp only; omega, by have := hb.old_hi; dsimp only; omega,
            by dsimp only; omega, by have := hb.new_hi; dsimp only; omega, fun t ht => ?_⟩
          rcases t with _ | t
          · simpa using h3
          · have := hb.equal t (by simpa using ht)
            simpa [show b.old - 1 + (t + 1) = b.old + t by omega,
              show b.new - 1 + (t + 1) = b.new + t by omega] using this
      · exact hb

/-- Growing a block forwards over equal lines keeps it fitting. -/
theorem growFront_fits {b : Block} (hb : p.Fits oldLo oldHi newLo newHi b) :
    ∀ fuel, p.Fits oldLo oldHi newLo newHi (p.growFront oldHi newHi fuel b) := by
  intro fuel
  induction fuel generalizing b with
  | zero => exact hb
  | succ fuel ih =>
      unfold growFront
      split
      · next hc =>
          simp only [Bool.and_eq_true, decide_eq_true_eq, beq_iff_eq] at hc
          obtain ⟨⟨h1, h2⟩, h3⟩ := hc
          refine ih ⟨hb.old_lo, by simp; omega, hb.new_lo, by simp; omega, fun t ht => ?_⟩
          by_cases htb : t < b.size
          · exact hb.equal t htb
          · obtain rfl : t = b.size := by simp at ht; omega
            exact h3
      · exact hb

/-- The longest block lies within its ranges and holds equal lines. -/
theorem longest_fits (hold : oldLo ≤ oldHi) (hnew : newLo ≤ newHi) :
    p.Fits oldLo oldHi newLo newHi (p.longest oldLo oldHi newLo newHi) := by
  have h0 : p.Fits oldLo oldHi newLo newHi ⟨oldLo, newLo, 0⟩ :=
    ⟨le_rfl, by simpa using hold, le_rfl, by simpa using hnew, fun t ht => absurd ht (by simp)⟩
  obtain ⟨-, hfound⟩ := rows_fold p oldLo oldHi newLo newHi (Q := fun _ b => p.Fits oldLo oldHi newLo newHi b)
    h0 (fun i b hlo hhi hb => improve_fits p oldLo oldHi newLo newHi hlo hhi hb) _ le_rfl
  exact growFront_fits p oldLo oldHi newLo newHi (growBack_fits p oldLo oldHi newLo newHi hfound _) _

end Search

section Self

/-! Two equal sequences: every line stands at the same place on both sides. -/

variable {p} {newHi : Nat} (hself : ∀ i, p.oldAt i = p.newAt i)
include hself

/-- A position that anchors a match anchors the diagonal match at itself. -/
theorem positions_diag_new {i j : Nat} (hj : j ∈ p.positions (p.oldAt i) 0 newHi) :
    j ∈ p.positions (p.oldAt j) 0 newHi := by
  obtain ⟨hpop, -, hjn, heq⟩ := (mem_positions p 0 newHi).mp hj
  exact (mem_positions p 0 newHi).mpr ⟨by rw [hself, heq]; exact hpop, Nat.zero_le _, hjn,
    (hself j).symm⟩

/-- A row that anchors a match anchors the diagonal match in it. -/
theorem positions_diag_old {i j : Nat} (hi : i < newHi) (hj : j ∈ p.positions (p.oldAt i) 0 newHi) :
    i ∈ p.positions (p.oldAt i) 0 newHi := by
  obtain ⟨hpop, -, -, -⟩ := (mem_positions p 0 newHi).mp hj
  exact (mem_positions p 0 newHi).mpr ⟨hpop, Nat.zero_le _, hi, (hself i).symm⟩

/-- A run is no longer than the diagonal run that ends at its position. -/
theorem runAt_le_diag_new (i j : Nat) : p.runAt 0 0 newHi i j ≤ p.runAt 0 0 newHi j j := by
  induction i generalizing j with
  | zero =>
      by_cases h : 0 < p.runAt 0 0 newHi 0 j
      · have hj := (runAt_pos_iff p 0 0 newHi).mp h
        have hjj := (runAt_pos_iff p 0 0 newHi).mpr (positions_diag_new hself hj)
        rw [runAt_eq p 0 0 newHi hj]
        simp only [runBefore, Nat.lt_irrefl, if_false, ite_self, Nat.zero_add]
        omega
      · omega
  | succ i ih =>
      by_cases h : 0 < p.runAt 0 0 newHi (i + 1) j
      · have hj := (runAt_pos_iff p 0 0 newHi).mp h
        rw [runAt_eq p 0 0 newHi hj, runAt_eq p 0 0 newHi (positions_diag_new hself hj)]
        rcases j with _ | j
        · simp
        · simpa [runBefore] using ih j
      · omega

/-- A run is no longer than the diagonal run that ends in its row. -/
theorem runAt_le_diag_old (i j : Nat) (hi : i < newHi) :
    p.runAt 0 0 newHi i j ≤ p.runAt 0 0 newHi i i := by
  induction i generalizing j with
  | zero =>
      by_cases h : 0 < p.runAt 0 0 newHi 0 j
      · have hj := (runAt_pos_iff p 0 0 newHi).mp h
        have hii := (runAt_pos_iff p 0 0 newHi).mpr (positions_diag_old hself hi hj)
        rw [runAt_eq p 0 0 newHi hj]
        simp only [runBefore, Nat.lt_irrefl, if_false, ite_self, Nat.zero_add]
        omega
      · omega
  | succ i ih =>
      by_cases h : 0 < p.runAt 0 0 newHi (i + 1) j
      · have hj := (runAt_pos_iff p 0 0 newHi).mp h
        rw [runAt_eq p 0 0 newHi hj, runAt_eq p 0 0 newHi (positions_diag_old hself hi hj)]
        rcases j with _ | j
        · simp
        · simpa [runBefore] using ih j (by omega)
      · omega

/-- A row of the search over two equal sequences keeps the best block on the
diagonal and at least as long as every diagonal run so far: a run left of the
diagonal is no longer than the diagonal run at its position, met in an earlier
row, and a run right of it no longer than the diagonal run of its row, met
earlier in the row. -/
theorem improve_diag {i : Nat} (hi : i < newHi) :
    ∀ (rs : List Nat) (b : Block), rs.Pairwise (· < ·) → b.old = b.new →
      (∀ i' < i, p.runAt 0 0 newHi i' i' ≤ b.size) →
      (i ∉ rs → p.runAt 0 0 newHi i i ≤ b.size) →
      (rs.foldl (p.improve 0 0 newHi i) b).old = (rs.foldl (p.improve 0 0 newHi i) b).new ∧
        ∀ i' < i + 1, p.runAt 0 0 newHi i' i' ≤ (rs.foldl (p.improve 0 0 newHi i) b).size
  | [], b, _, hdiag, hbefore, hrow => ⟨hdiag, fun i' hi' => by
      rcases Nat.lt_succ_iff_lt_or_eq.mp hi' with hlt | rfl
      · exact hbefore i' hlt
      · exact hrow (List.not_mem_nil)⟩
  | j :: rs, b, hs, hdiag, hbefore, hrow => by
      obtain ⟨hj, hs⟩ := List.pairwise_cons.mp hs
      rw [List.foldl_cons]
      rcases Nat.lt_trichotomy j i with hlt | rfl | hgt
      · -- left of the diagonal: the run was met on the diagonal in row `j`
        have hle : p.runAt 0 0 newHi i j ≤ b.size :=
          (runAt_le_diag_new hself i j).trans (hbefore j hlt)
        have hkeep : p.improve 0 0 newHi i b j = b := by simp [improve, Nat.not_lt.mpr hle]
        rw [hkeep]
        exact improve_diag hi rs b hs hdiag hbefore fun hni => hrow (by simp [hni, hlt.ne'])
      · -- on the diagonal: the block taken is diagonal
        unfold improve
        dsimp only
        split
        · next hk =>
            exact improve_diag hi rs _ hs rfl (fun i' hi' => by dsimp only; have := hbefore i' hi'; omega)
              fun _ => le_rfl
        · next hk => exact improve_diag hi rs b hs hdiag hbefore fun _ => by omega
      · -- right of the diagonal: the diagonal run of the row was met first
        have hrow' : p.runAt 0 0 newHi i i ≤ b.size := hrow fun hmem => by
          rcases List.mem_cons.mp hmem with h | h
          · omega
          · have := hj i h
            omega
        have hle : p.runAt 0 0 newHi i j ≤ b.size := (runAt_le_diag_old hself i j hi).trans hrow'
        have hkeep : p.improve 0 0 newHi i b j = b := by simp [improve, Nat.not_lt.mpr hle]
        rw [hkeep]
        exact improve_diag hi rs b hs hdiag hbefore fun _ => hrow'

/-- Growing a diagonal block backwards over two equal sequences reaches their
start. -/
theorem growBack_diag : ∀ (fuel : Nat) (b : Block), b.old = b.new → b.old ≤ fuel →
    p.growBack 0 0 fuel b = ⟨0, 0, b.old + b.size⟩
  | 0, ⟨o, n, s⟩, hd, hf => by
      simp only at hd hf
      obtain rfl : o = 0 := by omega
      subst hd
      simp [growBack]
  | fuel + 1, ⟨o, n, s⟩, hd, hf => by
      simp only at hd hf
      subst hd
      unfold growBack
      rcases o with _ | o
      · simp
      · rw [if_pos (by simp [hself])]
        rw [growBack_diag fuel _ rfl (by simp; omega)]
        simp only [Nat.add_sub_cancel, Block.mk.injEq, true_and]
        omega

/-- Growing a block at the start forwards over two equal sequences of `n`
lines reaches their end. -/
theorem growFront_diag (n : Nat) : ∀ (fuel s : Nat), n ≤ s + fuel → s ≤ n →
    p.growFront n n fuel ⟨0, 0, s⟩ = ⟨0, 0, n⟩
  | 0, s, hf, hs => by
      obtain rfl : s = n := by omega
      rfl
  | fuel + 1, s, hf, hs => by
      unfold growFront
      by_cases hlt : s < n
      · rw [if_pos (by simp [hlt, hself])]
        exact growFront_diag n fuel (s + 1) (by omega) (by omega)
      · rw [if_neg (by simp [hlt])]
        obtain rfl : s = n := by omega
        rfl

/-- Over two equal sequences of `n` lines, the longest block is all of them. -/
theorem longest_self (n : Nat) : p.longest 0 n 0 n = ⟨0, 0, n⟩ := by
  have hsorted : ∀ i, (p.positions (p.oldAt i) 0 n).Pairwise (· < ·) := by
    intro i
    unfold positions
    split
    · exact List.Pairwise.nil
    · exact (List.pairwise_lt_range' 1).filter _
  obtain ⟨-, hdiag, -, hfits⟩ := rows_fold p 0 n 0 n
    (Q := fun i b => b.old = b.new ∧ (∀ i' < i, p.runAt 0 0 n i' i' ≤ b.size) ∧ p.Fits 0 n 0 n b)
    ⟨rfl, fun i' hi' => absurd hi' (Nat.not_lt_zero _), ⟨le_rfl, by simp, le_rfl, by simp,
      fun t ht => absurd ht (Nat.not_lt_zero _)⟩⟩
    (fun i b _ hi ⟨hd, hb, hf⟩ => by
      obtain ⟨hd', hb'⟩ := improve_diag hself hi _ b (hsorted i) hd hb fun hni => by
        have : ¬ 0 < p.runAt 0 0 n i i := fun hpos =>
          hni ((runAt_pos_iff p 0 0 n).mp hpos)
        omega
      exact ⟨hd', hb', improve_fits p 0 n 0 n (Nat.zero_le _) hi hf⟩) n (by omega)
  unfold longest
  dsimp only
  rw [Nat.sub_zero, growBack_diag hself n _ hdiag (by have := hfits.old_hi; omega),
    growFront_diag hself n n _ (by omega) (by have := hfits.old_hi; omega)]

end Self


section Blocks

variable {oldLo oldHi newLo newHi : Nat}

/-- A block that fits smaller ranges fits larger ones. -/
theorem Fits.mono {oldLo' oldHi' newLo' newHi' : Nat} {b : Block}
    (h : p.Fits oldLo oldHi newLo newHi b) (h1 : oldLo' ≤ oldLo) (h2 : oldHi ≤ oldHi')
    (h3 : newLo' ≤ newLo) (h4 : newHi ≤ newHi') : p.Fits oldLo' oldHi' newLo' newHi' b :=
  ⟨by have := h.old_lo; omega, by have := h.old_hi; omega, by have := h.new_lo; omega,
    by have := h.new_hi; omega, h.equal⟩

/-- The blocks before a block, the block, and the blocks after it, each part in
its own ranges, are blocks in order within the whole ranges. -/
theorem fits_around {m : Block} {bs as : List Block} (hm : p.Fits oldLo oldHi newLo newHi m)
    (hsize : 0 < m.size)
    (hb : ∀ b ∈ bs, p.Fits oldLo m.old newLo m.new b ∧ 0 < b.size) (hbp : bs.Pairwise Block.Precedes)
    (ha : ∀ a ∈ as, p.Fits (m.old + m.size) oldHi (m.new + m.size) newHi a ∧ 0 < a.size)
    (hap : as.Pairwise Block.Precedes) :
    (∀ b ∈ bs ++ m :: as, p.Fits oldLo oldHi newLo newHi b ∧ 0 < b.size) ∧
      (bs ++ m :: as).Pairwise Block.Precedes := by
  have hmo := hm.old_hi
  have hmn := hm.new_hi
  refine ⟨fun b hmem => ?_, ?_⟩
  · rcases List.mem_append.mp hmem with hmem | hmem
    · exact ⟨(hb b hmem).1.mono p le_rfl (by omega) le_rfl (by omega), (hb b hmem).2⟩
    · rcases List.mem_cons.mp hmem with rfl | hmem
      · exact ⟨hm, hsize⟩
      · exact ⟨(ha b hmem).1.mono p (by have := hm.old_lo; omega) le_rfl
          (by have := hm.new_lo; omega) le_rfl, (ha b hmem).2⟩
  · refine List.pairwise_append.mpr ⟨hbp, List.pairwise_cons.mpr ⟨fun a ha' => ?_, hap⟩, ?_⟩
    · exact ⟨(ha a ha').1.old_lo, (ha a ha').1.new_lo⟩
    · intro b hb' c hc
      have hbo := (hb b hb').1.old_hi
      have hbn := (hb b hb').1.new_hi
      rcases List.mem_cons.mp hc with rfl | hc
      · exact ⟨hbo, hbn⟩
      · have := (ha c hc).1.old_lo
        have := (ha c hc).1.new_lo
        exact ⟨by omega, by omega⟩

/-- The blocks found within ranges lie within them, in order, each holding at
least one line, and equal lines. -/
theorem blocksWithin_fits :
    ∀ (fuel oldLo oldHi newLo newHi : Nat), oldLo ≤ oldHi → newLo ≤ newHi →
      (∀ b ∈ p.blocksWithin fuel oldLo oldHi newLo newHi, p.Fits oldLo oldHi newLo newHi b ∧ 0 < b.size) ∧
        (p.blocksWithin fuel oldLo oldHi newLo newHi).Pairwise Block.Precedes
  | 0, _, _, _, _, _, _ => by simp [blocksWithin]
  | fuel + 1, oldLo, oldHi, newLo, newHi, hold, hnew => by
      unfold blocksWithin
      dsimp only
      set m := p.longest oldLo oldHi newLo newHi
      have hm : p.Fits oldLo oldHi newLo newHi m := p.longest_fits oldLo oldHi newLo newHi hold hnew
      split
      · simp
      · next hsize =>
          -- the parts before and after the longest block are searched in their own ranges
          have hbefore : ∀ c : Bool, c = (oldLo < m.old && newLo < m.new) →
              let bs := if c then p.blocksWithin fuel oldLo m.old newLo m.new else []
              (∀ b ∈ bs, p.Fits oldLo m.old newLo m.new b ∧ 0 < b.size) ∧
                bs.Pairwise Block.Precedes := by
            rintro (_ | _) hc
            · simp
            · have hc := hc.symm
              simp only [Bool.and_eq_true, decide_eq_true_eq] at hc
              exact blocksWithin_fits fuel _ _ _ _ (by omega) (by omega)
          have hafter : ∀ c : Bool, c = (m.old + m.size < oldHi && m.new + m.size < newHi) →
              let as := if c then p.blocksWithin fuel (m.old + m.size) oldHi (m.new + m.size) newHi
                else []
              (∀ a ∈ as, p.Fits (m.old + m.size) oldHi (m.new + m.size) newHi a ∧ 0 < a.size) ∧
                as.Pairwise Block.Precedes := by
            rintro (_ | _) hc
            · simp
            · have hc := hc.symm
              simp only [Bool.and_eq_true, decide_eq_true_eq] at hc
              exact blocksWithin_fits fuel _ _ _ _ (by omega) (by omega)
          obtain ⟨hb, hbp⟩ := hbefore _ rfl
          obtain ⟨ha, hap⟩ := hafter _ rfl
          exact p.fits_around hm (Nat.pos_of_ne_zero hsize) hb hbp ha hap

/-- Every block that merging gives starts where a block merged starts. -/
theorem joinAdjacent_starts :
    ∀ (bs : List Block), ∀ c ∈ joinAdjacent bs, ∃ d ∈ bs, c.old = d.old ∧ c.new = d.new := by
  intro bs
  fun_induction joinAdjacent bs with
  | case1 a b rest hadj ih =>
      intro c hc
      obtain ⟨d, hd, h1, h2⟩ := ih c hc
      rcases List.mem_cons.mp hd with rfl | hd
      · exact ⟨a, List.mem_cons_self, h1, h2⟩
      · exact ⟨d, List.mem_cons_of_mem _ (List.mem_cons_of_mem _ hd), h1, h2⟩
  | case2 a b rest hadj ih =>
      intro c hc
      rcases List.mem_cons.mp hc with rfl | hc
      · exact ⟨c, List.mem_cons_self, rfl, rfl⟩
      · obtain ⟨d, hd, h1, h2⟩ := ih c hc
        exact ⟨d, List.mem_cons_of_mem _ hd, h1, h2⟩
  | case3 xs _ =>
      exact fun c hc => ⟨c, hc, rfl, rfl⟩

/-- Merging blocks that continue each other keeps blocks that fit, in order. -/
theorem joinAdjacent_fits :
    ∀ (bs : List Block), (∀ b ∈ bs, p.Fits oldLo oldHi newLo newHi b) → bs.Pairwise Block.Precedes →
      (∀ b ∈ joinAdjacent bs, p.Fits oldLo oldHi newLo newHi b) ∧
        (joinAdjacent bs).Pairwise Block.Precedes := by
  intro bs
  fun_induction joinAdjacent bs with
  | case1 a b rest hadj ih =>
      intro hf hp
      simp only [Bool.and_eq_true, decide_eq_true_eq] at hadj
      obtain ⟨hao, han⟩ := hadj
      have ha := hf a List.mem_cons_self
      have hb := hf b (List.mem_cons_of_mem _ List.mem_cons_self)
      obtain ⟨-, hp⟩ := List.pairwise_cons.mp hp
      obtain ⟨hbr, hp⟩ := List.pairwise_cons.mp hp
      -- the merged block holds the lines of both
      have hmerged : p.Fits oldLo oldHi newLo newHi ⟨a.old, a.new, a.size + b.size⟩ := by
        refine ⟨ha.old_lo, by have := hb.old_hi; dsimp only; omega, ha.new_lo,
          by have := hb.new_hi; dsimp only; omega, fun t ht => ?_⟩
        by_cases hta : t < a.size
        · exact ha.equal t hta
        · have := hb.equal (t - a.size) (by dsimp only at ht; omega)
          rwa [show b.old + (t - a.size) = a.old + t by omega,
            show b.new + (t - a.size) = a.new + t by omega] at this
      refine ih (fun c hc => ?_) (List.pairwise_cons.mpr ⟨fun c hc => ?_, hp⟩)
      · rcases List.mem_cons.mp hc with rfl | hc
        · exact hmerged
        · exact hf c (List.mem_cons_of_mem _ (List.mem_cons_of_mem _ hc))
      · obtain ⟨h1, h2⟩ := hbr c hc
        exact ⟨by dsimp only; omega, by dsimp only; omega⟩
  | case2 a b rest hadj ih =>
      intro hf hp
      obtain ⟨ha, hp'⟩ := List.pairwise_cons.mp hp
      obtain ⟨hf', hp''⟩ := ih (fun c hc => hf c (List.mem_cons_of_mem _ hc)) hp'
      refine ⟨fun c hc => ?_, List.pairwise_cons.mpr ⟨fun c hc => ?_, hp''⟩⟩
      · rcases List.mem_cons.mp hc with rfl | hc
        · exact hf c List.mem_cons_self
        · exact hf' c hc
      · obtain ⟨d, hd, h1, h2⟩ := joinAdjacent_starts (b :: rest) c hc
        obtain ⟨h3, h4⟩ := ha d hd
        exact ⟨h1 ▸ h3, h2 ▸ h4⟩
  | case3 xs _ =>
      exact fun hf hp => ⟨hf, hp⟩

/-- The matching blocks lie within the two sequences, in order, each holding
equal lines; the last is the empty block at their ends. -/
theorem blocks_fits :
    (∀ b ∈ p.blocks, p.Fits 0 p.old.size 0 p.new.size b) ∧ p.blocks.Pairwise Block.Precedes := by
  obtain ⟨hw, hwp⟩ := p.blocksWithin_fits (p.old.size + 1) 0 p.old.size 0 p.new.size
    (Nat.zero_le _) (Nat.zero_le _)
  obtain ⟨hj, hjp⟩ := joinAdjacent_fits p _ (fun b hb => (hw b hb).1) hwp
  unfold blocks
  refine ⟨fun b hb => ?_, List.pairwise_append.mpr ⟨hjp, List.pairwise_singleton _ _, ?_⟩⟩
  · rcases List.mem_append.mp hb with hb | hb
    · exact hj b hb
    · obtain rfl := List.mem_singleton.mp hb
      exact ⟨Nat.zero_le _, by simp, Nat.zero_le _, by simp, fun t ht => absurd ht (by simp)⟩
  · intro b hb c hc
    obtain rfl := List.mem_singleton.mp hc
    exact ⟨(hj b hb).old_hi, (hj b hb).new_hi⟩

/-- A sequence against itself has one matching block, all of it, before the
closing empty one; none when it is empty. -/
theorem blocks_self (xs : List String) :
    (ofLists xs xs).blocks =
      (if xs = [] then [] else [⟨0, 0, xs.length⟩]) ++ [⟨xs.length, xs.length, 0⟩] := by
  have hsize : (ofLists xs xs).old.size = xs.length := List.size_toArray
  have hsize' : (ofLists xs xs).new.size = xs.length := List.size_toArray
  have hl : (ofLists xs xs).longest 0 xs.length 0 xs.length = ⟨0, 0, xs.length⟩ :=
    longest_self (fun _ => rfl) xs.length
  unfold blocks
  rw [hsize, hsize']
  unfold blocksWithin
  dsimp only
  rw [hl]
  rcases xs with _ | ⟨x, xs⟩
  · simp [joinAdjacent]
  · simp [joinAdjacent]

end Blocks

end Pair
end Diff
end Firewall
