import Mathlib.Data.List.Chain
import Firewall.Proofs.Ruleset.Compare
import Firewall.Proofs.Text.Order

/-!
# Sorted entry runs: a canonical form for ip set rulesets

The kernel lists the entries of a set in no fixed order, so ip set rulesets
are compared with each maximal run of `add` lines sorted by code points
(`sortEntries`, read as `runsSorted`).  This module shows that the sorted form
is a canonical form for the order of entries:

- the sorted form reorders lines only within the maximal runs of `add` lines
  (`RunPerm`, `runPerm_runsSorted`): it is a permutation of the ruleset in
  which every other line keeps its place, and in it each `add` line followed
  by another comes first in code point order (`runsOrdered_runsSorted`);
- two rulesets have the same sorted form exactly when one is the other with
  the lines of its runs reordered (`runsSorted_eq_iff_runPerm`), for texts as
  the program holds them (`Text.Whole`), on which the code point order is
  antisymmetric;
- sorting a sorted form changes nothing (`runsSorted_runsSorted`).

Main statement: `sortEntries_canonical`.
-/

namespace Firewall

namespace Ruleset

section Runs

/-- The lines do not open with an `add` line: a run before them is maximal. -/
def OpensPlain (ls : List String) : Prop := ∀ l ∈ ls.head?, isEntry l = false

@[simp] theorem opensPlain_nil : OpensPlain [] := by simp [OpensPlain]

@[simp] theorem opensPlain_cons {l : String} {ls : List String} :
    OpensPlain (l :: ls) ↔ isEntry l = false := by
  simp [OpensPlain]

theorem opensPlain_dropWhile (ls : List String) : OpensPlain (ls.dropWhile isEntry) := by
  have h := List.head?_dropWhile_not isEntry ls
  intro l hl
  rw [Option.mem_def] at hl
  rw [hl] at h
  exact h

theorem takeWhile_run_append {r xs : List String} (hr : ∀ a ∈ r, isEntry a)
    (hxs : OpensPlain xs) : (r ++ xs).takeWhile isEntry = r := by
  rw [List.takeWhile_append_of_pos hr]
  cases xs with
  | nil => simp
  | cons l ls => simp [List.takeWhile_cons_of_neg, opensPlain_cons.mp hxs]

theorem dropWhile_run_append {r xs : List String} (hr : ∀ a ∈ r, isEntry a)
    (hxs : OpensPlain xs) : (r ++ xs).dropWhile isEntry = xs := by
  rw [List.dropWhile_append_of_pos hr]
  cases xs with
  | nil => simp
  | cons l ls => simp [List.dropWhile_cons_of_neg, opensPlain_cons.mp hxs]

/-- A run of `add` lines and lines that open plain split only there. -/
theorem run_append_inj {r r' xs xs' : List String} (hr : ∀ a ∈ r, isEntry a)
    (hr' : ∀ a ∈ r', isEntry a) (hxs : OpensPlain xs) (hxs' : OpensPlain xs')
    (h : r ++ xs = r' ++ xs') : r = r' ∧ xs = xs' := by
  constructor
  · rw [← takeWhile_run_append hr hxs, h, takeWhile_run_append hr' hxs']
  · rw [← dropWhile_run_append hr hxs, h, dropWhile_run_append hr' hxs']

theorem runsSorted_cons_plain {l : String} (hl : isEntry l = false) (ls : List String) :
    runsSorted (l :: ls) = l :: runsSorted ls := by
  rw [runsSorted, if_neg (by simp [hl])]

/-- A maximal run is sorted as a whole. -/
theorem runsSorted_run_append {r xs : List String} (hr : ∀ a ∈ r, isEntry a)
    (hxs : OpensPlain xs) : runsSorted (r ++ xs) = r.mergeSort Text.codeOrder ++ runsSorted xs := by
  rw [runsSorted_eq_run, takeWhile_run_append hr hxs, dropWhile_run_append hr hxs]

/-- The sorted form opens with an `add` line exactly when the lines do. -/
theorem opensPlain_runsSorted_iff (ls : List String) :
    OpensPlain (runsSorted ls) ↔ OpensPlain ls := by
  cases ls with
  | nil => simp [runsSorted]
  | cons l ls =>
    cases hl : isEntry l with
    | false => simp [runsSorted_cons_plain hl, hl]
    | true =>
      -- the run that opens the lines is not empty, and sorting it keeps it one of `add` lines
      have hrun : ∀ a ∈ (l :: ls.takeWhile isEntry), isEntry a := by
        intro a ha
        rcases List.mem_cons.mp ha with rfl | ha
        · exact hl
        · exact List.mem_takeWhile_imp ha
      obtain ⟨a, rest, hsort⟩ : ∃ a rest,
          (l :: ls.takeWhile isEntry).mergeSort Text.codeOrder = a :: rest := by
        cases hs : (l :: ls.takeWhile isEntry).mergeSort Text.codeOrder with
        | nil => simpa using congrArg List.length hs
        | cons a rest => exact ⟨a, rest, rfl⟩
      have ha : isEntry a := by
        have hmem : a ∈ (l :: ls.takeWhile isEntry).mergeSort Text.codeOrder := by
          rw [hsort]
          exact List.mem_cons_self
        exact hrun a (List.mem_mergeSort.mp hmem)
      rw [runsSorted, if_pos hl, hsort]
      simp [ha, hl]

end Runs

section Reordering

/-- The second lines are the first with the lines of each maximal run of `add`
lines reordered: both break into the same other lines, at the same places,
and runs that are permutations of one another. -/
inductive RunPerm : List String → List String → Prop
  | nil : RunPerm [] []
  | plain {l : String} {xs ys : List String} (hl : isEntry l = false) (rest : RunPerm xs ys) :
      RunPerm (l :: xs) (l :: ys)
  | run {r r' xs ys : List String} (hne : r ≠ []) (hentries : ∀ a ∈ r, isEntry a)
      (hperm : r.Perm r') (hmax : OpensPlain xs) (rest : RunPerm xs ys) :
      RunPerm (r ++ xs) (r' ++ ys)

namespace RunPerm

theorem perm {xs ys : List String} (h : RunPerm xs ys) : xs.Perm ys := by
  induction h with
  | nil => exact List.Perm.nil
  | plain _ _ ih => exact ih.cons _
  | run _ _ hperm _ _ ih => exact hperm.append ih

theorem opensPlain {xs ys : List String} (h : RunPerm xs ys) (hxs : OpensPlain xs) :
    OpensPlain ys := by
  cases h with
  | nil => exact opensPlain_nil
  | plain hl _ => exact opensPlain_cons.mpr hl
  | run hne hentries _ _ _ =>
    -- a nonempty run would open the first lines with an `add` line
    obtain ⟨a, r, rfl⟩ := List.exists_cons_of_ne_nil hne
    have := opensPlain_cons.mp hxs
    simp [hentries a (List.mem_cons_self)] at this

/-- Every line other than an `add` line keeps its place. -/
theorem getElem?_plain {xs ys : List String} (h : RunPerm xs ys) :
    ∀ (i : Nat) (hi : i < xs.length), isEntry xs[i] = false → ys[i]? = some xs[i] := by
  induction h with
  | nil => intro i hi; simp at hi
  | plain hl _ ih =>
    intro i hi hplain
    cases i with
    | zero => simp
    | succ i => simpa using ih i (by simpa using hi) (by simpa using hplain)
  | @run r r' xs ys _ hentries hperm _ _ ih =>
    intro i hi hplain
    have hlen : r'.length = r.length := hperm.length_eq.symm
    by_cases hir : i < r.length
    · -- inside the run every line is an `add` line
      rw [List.getElem_append_left hir] at hplain
      simp [hentries _ (List.getElem_mem hir)] at hplain
    · have hi' : i - r.length < xs.length := by simp at hi; omega
      rw [List.getElem_append_right (by omega)] at hplain ⊢
      rw [List.getElem?_append_right (by omega), hlen]
      exact ih _ hi' hplain

end RunPerm

/-- The sorted form reorders lines within the maximal runs only. -/
theorem runPerm_runsSorted (ls : List String) : RunPerm ls (runsSorted ls) := by
  induction ls using runsSorted.induct with
  | case1 => simpa [runsSorted] using RunPerm.nil
  | case2 l ls hl ih =>
    have hrun : ∀ a ∈ l :: ls.takeWhile isEntry, isEntry a := by
      intro a ha
      rcases List.mem_cons.mp ha with rfl | ha
      · exact hl
      · exact List.mem_takeWhile_imp ha
    have hsplit : l :: ls = (l :: ls.takeWhile isEntry) ++ ls.dropWhile isEntry := by
      simp
    rw [runsSorted, if_pos hl, hsplit]
    exact .run (List.cons_ne_nil _ _) hrun (List.mergeSort_perm _ _).symm
      (opensPlain_dropWhile ls) ih
  | case3 l ls hl ih =>
    rw [runsSorted_cons_plain (by simpa using hl)]
    exact .plain (by simpa using hl) ih

/-- Lines with the same sorted form are reorderings of one another within runs. -/
theorem runPerm_of_runsSorted_eq {xs ys : List String} (h : runsSorted xs = runsSorted ys) :
    RunPerm xs ys := by
  induction xs using runsSorted.induct generalizing ys with
  | case1 =>
    have hlen := congrArg List.length h
    rw [← (runPerm_runsSorted ys).perm.length_eq] at hlen
    have : ys = [] := List.eq_nil_of_length_eq_zero (by simpa [runsSorted] using hlen.symm)
    subst this
    exact .nil
  | case2 l ls hl ih =>
    have hrun : ∀ a ∈ l :: ls.takeWhile isEntry, isEntry a := by
      intro a ha
      rcases List.mem_cons.mp ha with rfl | ha
      · exact hl
      · exact List.mem_takeWhile_imp ha
    -- `ys` opens with an `add` line too, so its first run sorts to the same lines
    have hys : ¬ OpensPlain ys := by
      rw [← opensPlain_runsSorted_iff, ← h, opensPlain_runsSorted_iff]
      simp [hl]
    obtain ⟨m, ms, rfl⟩ : ∃ m ms, ys = m :: ms := by
      cases ys with
      | nil => simp at hys
      | cons m ms => exact ⟨m, ms, rfl⟩
    have hm : isEntry m := by simpa using hys
    have hrun' : ∀ a ∈ m :: ms.takeWhile isEntry, isEntry a := by
      intro a ha
      rcases List.mem_cons.mp ha with rfl | ha
      · exact hm
      · exact List.mem_takeWhile_imp ha
    rw [runsSorted, if_pos hl, runsSorted, if_pos hm] at h
    obtain ⟨hsort, hrest⟩ := run_append_inj
      (fun a ha => hrun a (List.mem_mergeSort.mp ha)) (fun a ha => hrun' a (List.mem_mergeSort.mp ha))
      ((opensPlain_runsSorted_iff _).mpr (opensPlain_dropWhile ls))
      ((opensPlain_runsSorted_iff _).mpr (opensPlain_dropWhile ms)) h
    have hperm : (l :: ls.takeWhile isEntry).Perm (m :: ms.takeWhile isEntry) :=
      (List.mergeSort_perm _ _).symm.trans ((List.Perm.of_eq hsort).trans (List.mergeSort_perm _ _))
    have hl' : l :: ls = (l :: ls.takeWhile isEntry) ++ ls.dropWhile isEntry := by simp
    have hm' : m :: ms = (m :: ms.takeWhile isEntry) ++ ms.dropWhile isEntry := by simp
    rw [hl', hm']
    exact .run (List.cons_ne_nil _ _) hrun hperm (opensPlain_dropWhile ls) (ih hrest)
  | case3 l ls hl ih =>
    have hl : isEntry l = false := by simpa using hl
    rw [runsSorted_cons_plain hl] at h
    -- `ys` opens with the same line, which is no `add` line
    have hys : OpensPlain ys := by
      rw [← opensPlain_runsSorted_iff, ← h]
      exact opensPlain_cons.mpr hl
    obtain ⟨m, ms, rfl⟩ : ∃ m ms, ys = m :: ms := by
      cases ys with
      | nil => simp [runsSorted] at h
      | cons m ms => exact ⟨m, ms, rfl⟩
    rw [runsSorted_cons_plain (opensPlain_cons.mp hys)] at h
    obtain ⟨rfl, hrest⟩ := List.cons.inj h
    exact .plain hl (ih hrest)

/-- Reordering whole texts within runs leaves the sorted form as it is. -/
theorem runsSorted_eq_of_runPerm {xs ys : List String} (h : RunPerm xs ys)
    (hw : ∀ l ∈ xs, Text.Whole l) : runsSorted xs = runsSorted ys := by
  induction h with
  | nil => rfl
  | plain hl _ ih =>
    rw [runsSorted_cons_plain hl, runsSorted_cons_plain hl,
      ih fun l hm => hw l (List.mem_cons_of_mem _ hm)]
  | run _ hentries hperm hmax rest ih =>
    have hentries' : ∀ a ∈ _, isEntry a := fun a ha => hentries a (hperm.mem_iff.mpr ha)
    rw [runsSorted_run_append hentries hmax, runsSorted_run_append hentries' (rest.opensPlain hmax),
      Text.mergeSort_codeOrder_eq_of_perm (fun a ha => hw a (List.mem_append_left _ ha)) hperm,
      ih fun l hm => hw l (List.mem_append_right _ hm)]

/-- Two rulesets of whole texts have the same sorted form exactly when one is
the other with lines reordered within its runs. -/
theorem runsSorted_eq_iff_runPerm {xs ys : List String} (hw : ∀ l ∈ xs, Text.Whole l) :
    runsSorted xs = runsSorted ys ↔ RunPerm xs ys :=
  ⟨runPerm_of_runsSorted_eq, fun h => runsSorted_eq_of_runPerm h hw⟩

end Reordering

section Ordered

/-- Each `add` line followed by another comes first in code point order. -/
def RunsOrdered (ls : List String) : Prop :=
  ls.IsChain fun a b => isEntry a → isEntry b → Text.codeOrder a b

/-- A chain of `add` lines in code point order is sorted. -/
theorem pairwise_of_runsOrdered {r : List String} (hr : ∀ a ∈ r, isEntry a)
    (h : RunsOrdered r) : r.Pairwise fun a b => Text.codeOrder a b := by
  have hchain : r.IsChain fun a b => Text.codeOrder a b :=
    h.imp_of_mem_imp fun a b ha hb hab => hab (hr a ha) (hr b hb)
  have : Trans (fun a b : String => Text.codeOrder a b = true) (fun a b => Text.codeOrder a b = true)
      (fun a b => Text.codeOrder a b = true) := ⟨Text.codeOrder_trans⟩
  exact hchain.pairwise

theorem runsOrdered_runsSorted (ls : List String) : RunsOrdered (runsSorted ls) := by
  induction ls using runsSorted.induct with
  | case1 => simp [runsSorted, RunsOrdered]
  | case2 l ls hl ih =>
    rw [runsSorted, if_pos hl]
    refine List.isChain_append.mpr ⟨?_, ih, ?_⟩
    · exact (Text.pairwise_mergeSort_codeOrder _).isChain.imp fun _ _ hab _ _ => hab
    · -- the line after the run is no `add` line
      intro a _ b hb _ hbe
      have := (opensPlain_runsSorted_iff _).mpr (opensPlain_dropWhile ls) b hb
      simp [this] at hbe
  | case3 l ls hl ih =>
    rw [runsSorted_cons_plain (by simpa using hl)]
    exact ih.cons fun _ _ hle => absurd hle hl

/-- Sorting changes nothing where the runs are in order already. -/
theorem runsSorted_of_runsOrdered {ls : List String} (h : RunsOrdered ls) : runsSorted ls = ls := by
  induction ls using runsSorted.induct with
  | case1 => simp [runsSorted]
  | case2 l ls hl ih =>
    have hrun : ∀ a ∈ l :: ls.takeWhile isEntry, isEntry a := by
      intro a ha
      rcases List.mem_cons.mp ha with rfl | ha
      · exact hl
      · exact List.mem_takeWhile_imp ha
    have hsplit : l :: ls = (l :: ls.takeWhile isEntry) ++ ls.dropWhile isEntry := by simp
    rw [hsplit] at h
    rw [runsSorted, if_pos hl, List.mergeSort_of_pairwise (pairwise_of_runsOrdered hrun h.left_of_append),
      ih h.right_of_append]
    simp
  | case3 l ls hl ih =>
    rw [runsSorted_cons_plain (by simpa using hl), ih h.tail]

theorem runsSorted_runsSorted (ls : List String) : runsSorted (runsSorted ls) = runsSorted ls :=
  runsSorted_of_runsOrdered (runsOrdered_runsSorted ls)

end Ordered

/-- Sorting the entry runs is a canonical form for the order of entries.  The
sorted form is a permutation of the ruleset in which every line other than an
`add` line keeps its place and each maximal run of `add` lines is in code point
order; two rulesets of whole texts have the same sorted form exactly when one
is the other with the lines of its maximal runs reordered; and sorting twice
sorts once. -/
theorem sortEntries_canonical :
    (∀ xs : List String, (sortEntries xs).Perm xs ∧
      (∀ (i : Nat) (hi : i < xs.length), isEntry xs[i] = false →
        (sortEntries xs)[i]? = some xs[i]) ∧
      RunsOrdered (sortEntries xs)) ∧
    (∀ xs ys : List String, (∀ l ∈ xs ++ ys, Text.Whole l) →
      (sortEntries xs = sortEntries ys ↔ RunPerm xs ys)) ∧
    ∀ xs : List String, sortEntries (sortEntries xs) = sortEntries xs := by
  refine ⟨fun xs => ⟨?_, ?_, ?_⟩, fun xs ys hw => ?_, fun xs => ?_⟩
  · rw [sortEntries_eq_runsSorted]
    exact (runPerm_runsSorted xs).perm.symm
  · rw [sortEntries_eq_runsSorted]
    exact (runPerm_runsSorted xs).getElem?_plain
  · rw [sortEntries_eq_runsSorted]
    exact runsOrdered_runsSorted xs
  · rw [sortEntries_eq_runsSorted, sortEntries_eq_runsSorted]
    exact runsSorted_eq_iff_runPerm fun l hl => hw l (List.mem_append_left _ hl)
  · rw [sortEntries_eq_runsSorted, sortEntries_eq_runsSorted]
    exact runsSorted_runsSorted xs

/-- A set listed with its two entries the other way round: the lines are whole
texts, reordered within their run, so they sort alike. -/
theorem entriesSwapped_sort_alike :
    (∀ l ∈ ["create s hash:ip", "add s 1.2.3.5", "add s 1.2.3.4"] ++
        ["create s hash:ip", "add s 1.2.3.4", "add s 1.2.3.5"], Text.Whole l) ∧
      RunPerm ["create s hash:ip", "add s 1.2.3.5", "add s 1.2.3.4"]
        ["create s hash:ip", "add s 1.2.3.4", "add s 1.2.3.5"] ∧
      sortEntries ["create s hash:ip", "add s 1.2.3.5", "add s 1.2.3.4"] =
        sortEntries ["create s hash:ip", "add s 1.2.3.4", "add s 1.2.3.5"] := by
  have hw : ∀ l ∈ ["create s hash:ip", "add s 1.2.3.5", "add s 1.2.3.4"] ++
      ["create s hash:ip", "add s 1.2.3.4", "add s 1.2.3.5"], Text.Whole l := by decide +kernel
  have hrun : RunPerm (["add s 1.2.3.5", "add s 1.2.3.4"] ++ [])
      (["add s 1.2.3.4", "add s 1.2.3.5"] ++ []) :=
    .run (List.cons_ne_nil _ _) (by decide +kernel) (.swap _ _ []) (by simp) .nil
  have hperm : RunPerm ["create s hash:ip", "add s 1.2.3.5", "add s 1.2.3.4"]
      ["create s hash:ip", "add s 1.2.3.4", "add s 1.2.3.5"] := .plain (by decide +kernel) hrun
  exact ⟨hw, hperm, (sortEntries_canonical.2.1 _ _ hw).mpr hperm⟩

end Ruleset
end Firewall
