import Mathlib.Data.List.Nodup
import Firewall.Proofs.Ipset.Staging

/-!
# The atomic ipset update on a kernel

`Ipset.swapScript` stages a new ipset script over the live sets, then swaps
each staged set into its live one, destroys the temporary sets, and flushes
and destroys the live sets the script no longer has.  This module runs that
script on the kernel's sets.

**Phases.**  After the staged lines, the script runs in three phases, each
read through `IpSet.lookup`: the swap and destroy pairs (`runAll_swapLines`),
the flushes (`runAll_flushes`) and the destroys (`runAll_destroys`) of the
stale sets.  None of them can fail once the staged lines have run
(`runAll_after_staging`).

**Results.**
* `runAll_swapScript_perm`: whenever the script built for a block script runs,
  the kernel is left with exactly the sets the blocks describe.
* `swapScript_runs`: it does run when no live set's name lies inside a
  command word of its lines and no block outside the live sets bears a live
  set's temporary name: its name, a dot and three lowercase letters, as the
  drawn words are (`TempFree`).
-/

namespace Firewall
namespace Ipset

open IpSet

/-- The lines that swap each staged set into its live one and destroy the
temporary set. -/
def swapLines (pairs : List (String × String)) : List String :=
  pairs.flatMap fun (set, tmp) => ["swap " ++ tmp ++ " " ++ set, "destroy " ++ tmp]

/-- The live sets that no staged set replaces. -/
def staleSets (live : List String) (pairs : List (String × String)) : List String :=
  live.filter fun s => !pairs.any (·.1 == s)

theorem swapScript_run (live script : List String) (w : Words) :
    Drawing.run (swapScript live script) w =
      match Drawing.run (script.foldlM (Staging.step live) ⟨[], [], none⟩) w with
      | (.ok r, w') => (.ok (r.lines ++ swapLines r.temporary ++
          (staleSets live r.temporary).map ("flush " ++ ·) ++
          (staleSets live r.temporary).map ("destroy " ++ ·)), w')
      | (.error e, w') => (.error e, w') := by
  unfold swapScript
  rw [Drawing.run_bind]
  rcases Drawing.run (script.foldlM (Staging.step live) ⟨[], [], none⟩) w with ⟨_ | r, w'⟩ <;> rfl

/-- Building the script leaves a plain supply plain, whatever the outcome. -/
theorem swapScript_plain {live script : List String} {w : Words} (hw : w.Plain) :
    (Drawing.run (swapScript live script) w).2.Plain := by
  rw [swapScript_run]
  have h := @foldlM_step_plain live script ⟨[], [], none⟩ w hw
  rcases hd : Drawing.run (script.foldlM (Staging.step live) ⟨[], [], none⟩) w with ⟨_ | r, w'⟩ <;>
    (rw [hd] at h; exact h)

theorem mem_staleSets {live : List String} {pairs : List (String × String)} {n : String} :
    n ∈ staleSets live pairs ↔ n ∈ live ∧ n ∉ pairs.map (·.1) := by
  simp only [staleSets, List.mem_filter, Bool.not_eq_true', List.any_eq_false, beq_iff_eq]
  constructor
  · rintro ⟨hl, hp⟩
    refine ⟨hl, fun hm => ?_⟩
    obtain ⟨p, hp', e⟩ := List.mem_map.mp hm
    exact hp p hp' e
  · rintro ⟨hl, hp⟩
    exact ⟨hl, fun p hp' e => hp (List.mem_map.mpr ⟨p, hp', e⟩)⟩

section Commands

theorem isWord_swap : Text.IsWord "swap" := by decide

theorem isWord_flush : Text.IsWord "flush" := by decide

theorem isWord_destroy : Text.IsWord "destroy" := by decide

theorem words_swap_line {tmp set : String} (ht : Text.IsWord tmp) (hs : Text.IsWord set) :
    Text.words ("swap " ++ tmp ++ " " ++ set) = ["swap", tmp, set] := by
  rw [show "swap " ++ tmp ++ " " ++ set = "swap" ++ " " ++ tmp ++ " " ++ set from rfl,
    words_command isWord_swap ht, Text.words_word hs]

theorem words_set_line {cmd name : String} (hc : Text.IsWord cmd) (hn : Text.IsWord name) :
    Text.words (cmd ++ " " ++ name) = [cmd, name] := by
  rw [Text.words_word_space hc, Text.words_word hn]

/-- A swap of a staged set into a live one, then the destroy of the temporary
set: the live name gets the staged contents and the temporary name goes. -/
theorem runAll_swap_pair {L : List IpSet} (hv : Valid L) {set tmp : String}
    (hs : Text.IsWord set) (ht : Text.IsWord tmp) (hne : tmp ≠ set) {T : IpSet}
    (hT : lookup L tmp = some T) (hX : lookup L set ≠ none) (rest : List String) :
    ∃ L', runAll L (["swap " ++ tmp ++ " " ++ set, "destroy " ++ tmp] ++ rest) = runAll L' rest ∧
      Valid L' ∧ ∀ n, lookup L' n =
        if n = tmp then none else if n = set then some { T with name := set } else lookup L n := by
  obtain ⟨X, hX⟩ := Option.ne_none_iff_exists'.mp hX
  let f := fun s : IpSet =>
    if s.name == tmp then { X with name := tmp } else if s.name == set then { T with name := set } else s
  have hf : ∀ s, (f s).name = s.name := by
    intro s
    simp only [f]
    split
    · exact (beq_iff_eq.mp ‹_›).symm
    · split
      · exact (beq_iff_eq.mp ‹_›).symm
      · rfl
  have hex : exists_ (L.map f) tmp = true := by
    rw [exists_iff, List.map_map]
    exact List.mem_map.mpr ⟨T, mem_of_lookup hT, by simp [hf, lookup_name hT]⟩
  have hdestroy : Text.words ("destroy " ++ tmp) = ["destroy", tmp] := by
    rw [show "destroy " ++ tmp = "destroy" ++ " " ++ tmp from rfl]
    exact words_set_line isWord_destroy ht
  refine ⟨(L.map f).filter (·.name != tmp), ?_, (hv.map hf).filter _, ?_⟩
  · rw [List.cons_append, runAll_swap (words_swap_line ht hs)]
    simp only [lookup] at hT hX
    rw [hT, hX]
    dsimp only
    rw [List.cons_append, List.nil_append, runAll_destroy hdestroy, if_pos hex]
  · intro n
    rw [lookup_filter_name, lookup_map hf]
    by_cases h1 : n = tmp
    · rw [if_pos h1, if_pos h1]
    · rw [if_neg h1, if_neg h1]
      by_cases h2 : n = set
      · subst h2
        have hXn : X.name = n := lookup_name hX
        simp [hX, f, hXn, Ne.symm hne]
      · rw [if_neg h2]
        cases hl : lookup L n with
        | none => rfl
        | some s =>
            have hsn : s.name = n := lookup_name hl
            simp [f, hsn, h1, h2]

end Commands

section Phases

/-- The swap and destroy pairs, for distinct live names and distinct
temporary names that all exist: each live name gets the contents of its
temporary set, every temporary name goes, and the other names are kept. -/
theorem runAll_swapLines : ∀ (pairs : List (String × String)) (L : List IpSet) (rest : List String),
    Valid L → (∀ p ∈ pairs, Text.IsWord p.1 ∧ Text.IsWord p.2) →
    (pairs.map (·.1)).Nodup → (pairs.map (·.2)).Nodup → (∀ p ∈ pairs, ∀ q ∈ pairs, p.1 ≠ q.2) →
    (∀ p ∈ pairs, lookup L p.1 ≠ none ∧ lookup L p.2 ≠ none) →
    ∃ L', runAll L (swapLines pairs ++ rest) = runAll L' rest ∧ Valid L' ∧
      (∀ p ∈ pairs, lookup L' p.2 = none ∧
        lookup L' p.1 = (lookup L p.2).map fun T => { T with name := p.1 }) ∧
      (∀ n, n ∉ pairs.map (·.1) → n ∉ pairs.map (·.2) → lookup L' n = lookup L n)
  | [], L, _, hv, _, _, _, _, _ => ⟨L, rfl, hv, by simp, fun _ _ _ => rfl⟩
  | (set, tmp) :: ps, L, rest, hv, hw, hkeys, htmps, hdisj, hex => by
      rw [List.map_cons, List.nodup_cons] at hkeys htmps
      have hmem : ∀ {q}, q ∈ ps → q ∈ (set, tmp) :: ps := List.mem_cons_of_mem _
      have hne : tmp ≠ set := fun e => hdisj _ List.mem_cons_self _ List.mem_cons_self e.symm
      have hws := hw _ List.mem_cons_self
      obtain ⟨T, hT⟩ := Option.ne_none_iff_exists'.mp (hex _ List.mem_cons_self).2
      obtain ⟨L1, hrun1, hv1, hl1⟩ :=
        runAll_swap_pair hv hws.1 hws.2 hne hT (hex _ List.mem_cons_self).1 (swapLines ps ++ rest)
      -- the names of the later pairs are neither `set` nor `tmp`
      have hkey : ∀ q ∈ ps, q.1 ≠ tmp ∧ q.1 ≠ set := fun q hq =>
        ⟨hdisj q (hmem hq) _ List.mem_cons_self,
          fun e => hkeys.1 (List.mem_map.mpr ⟨q, hq, e⟩)⟩
      have htmp : ∀ q ∈ ps, q.2 ≠ tmp ∧ q.2 ≠ set := fun q hq =>
        ⟨fun e => htmps.1 (List.mem_map.mpr ⟨q, hq, e⟩),
          fun e => hdisj _ List.mem_cons_self q (hmem hq) e.symm⟩
      have hkeep : ∀ n, n ≠ tmp → n ≠ set → lookup L1 n = lookup L n := by
        intro n h1 h2
        rw [hl1, if_neg h1, if_neg h2]
      obtain ⟨L', hrun, hv', hpairs, hother⟩ := runAll_swapLines ps L1 rest hv1
        (fun q hq => hw q (hmem hq)) hkeys.2 htmps.2
        (fun p hp q hq => hdisj p (hmem hp) q (hmem hq))
        (fun q hq => by
          rw [hkeep _ (hkey q hq).1 (hkey q hq).2, hkeep _ (htmp q hq).1 (htmp q hq).2]
          exact hex q (hmem hq))
      -- `set` and `tmp` are untouched by the later pairs
      have hset : lookup L' set = lookup L1 set := hother set hkeys.1
        (fun hm => by
          obtain ⟨q, hq, e⟩ := List.mem_map.mp hm
          exact (htmp q hq).2 e)
      have htmp' : lookup L' tmp = lookup L1 tmp := hother tmp
        (fun hm => by
          obtain ⟨q, hq, e⟩ := List.mem_map.mp hm
          exact (hkey q hq).1 e)
        htmps.1
      refine ⟨L', ?_, hv', ?_, ?_⟩
      · rw [swapLines, List.flatMap_cons, ← swapLines, List.append_assoc, hrun1, hrun]
      · intro p hp
        rcases List.mem_cons.mp hp with rfl | hp
        · refine ⟨by rw [htmp', hl1, if_pos rfl], ?_⟩
          rw [hset, hl1, if_neg (Ne.symm hne), if_pos rfl, hT]
          rfl
        · obtain ⟨h1, h2⟩ := hpairs p hp
          refine ⟨h1, ?_⟩
          rw [h2, hkeep _ (htmp p hp).1 (htmp p hp).2]
      · intro n hn1 hn2
        simp only [List.map_cons, List.mem_cons, not_or] at hn1 hn2
        rw [hother n hn1.2 hn2.2, hkeep n hn2.1 hn1.1]

/-- Flushing sets that exist empties them and keeps every name. -/
theorem runAll_flushes : ∀ (names : List String) (L : List IpSet) (rest : List String), Valid L →
    (∀ n ∈ names, Text.IsWord n ∧ lookup L n ≠ none) →
    ∃ L', runAll L (names.map ("flush " ++ ·) ++ rest) = runAll L' rest ∧ Valid L' ∧
      ∀ n, lookup L' n = if n ∈ names then (lookup L n).map fun s => { s with entries := [] }
        else lookup L n
  | [], L, _, hv, _ => ⟨L, rfl, hv, by simp⟩
  | a :: names, L, rest, hv, hex => by
      have clear_name : ∀ s : IpSet, ({ s with entries := [] } : IpSet).name = s.name := fun _ => rfl
      have hupd : ∀ n, lookup (update L a fun s => { s with entries := [] }) n =
          if n = a then (lookup L n).map fun s => { s with entries := [] } else lookup L n := by
        intro n
        unfold update
        rw [lookup_map (fun s => by by_cases h : s.name = a <;> simp [h])]
        cases hl : lookup L n with
        | none => simp
        | some s =>
            have hsn : s.name = n := lookup_name hl
            by_cases h : n = a <;> simp [hsn, h]
      have ha := hex a List.mem_cons_self
      have hexa : exists_ L a = true := by
        obtain ⟨s, hs⟩ := Option.ne_none_iff_exists'.mp ha.2
        rw [exists_iff]
        exact List.mem_map.mpr ⟨s, mem_of_lookup hs, lookup_name hs⟩
      obtain ⟨L', hrun, hv', hl'⟩ := runAll_flushes names _ rest (hv.update a clear_name)
        (fun n hn => ⟨(hex n (List.mem_cons_of_mem _ hn)).1, by
          rw [hupd]
          by_cases h : n = a
          · simpa [h] using ha.2
          · rw [if_neg h]
            exact (hex n (List.mem_cons_of_mem _ hn)).2⟩)
      have hflush : Text.words ("flush " ++ a) = ["flush", a] := by
        rw [show "flush " ++ a = "flush" ++ " " ++ a from rfl]
        exact words_set_line isWord_flush ha.1
      refine ⟨L', ?_, hv', ?_⟩
      · rw [List.map_cons, List.cons_append, runAll_flush hflush, if_pos hexa, hrun]
      · intro n
        rw [hl', hupd]
        by_cases h : n = a
        · subst h
          cases lookup L n <;> simp
        · by_cases hn : n ∈ names <;> simp [h, hn]

/-- Destroying distinct sets that exist removes exactly their names. -/
theorem runAll_destroys : ∀ (names : List String) (L : List IpSet) (rest : List String), Valid L →
    names.Nodup → (∀ n ∈ names, Text.IsWord n ∧ lookup L n ≠ none) →
    ∃ L', runAll L (names.map ("destroy " ++ ·) ++ rest) = runAll L' rest ∧ Valid L' ∧
      ∀ n, lookup L' n = if n ∈ names then none else lookup L n
  | [], L, _, hv, _, _ => ⟨L, rfl, hv, by simp⟩
  | a :: names, L, rest, hv, hnd, hex => by
      rw [List.nodup_cons] at hnd
      have ha := hex a List.mem_cons_self
      have hexa : exists_ L a = true := by
        obtain ⟨s, hs⟩ := Option.ne_none_iff_exists'.mp ha.2
        rw [exists_iff]
        exact List.mem_map.mpr ⟨s, mem_of_lookup hs, lookup_name hs⟩
      obtain ⟨L', hrun, hv', hl'⟩ := runAll_destroys names _ rest (hv.filter (·.name != a)) hnd.2
        (fun n hn => ⟨(hex n (List.mem_cons_of_mem _ hn)).1, by
          have hna : n ≠ a := fun e => hnd.1 (e ▸ hn)
          rw [lookup_filter_name, if_neg hna]
          exact (hex n (List.mem_cons_of_mem _ hn)).2⟩)
      have hdestroy : Text.words ("destroy " ++ a) = ["destroy", a] := by
        rw [show "destroy " ++ a = "destroy" ++ " " ++ a from rfl]
        exact words_set_line isWord_destroy ha.1
      refine ⟨L', ?_, hv', ?_⟩
      · rw [List.map_cons, List.cons_append, runAll_destroy hdestroy, if_pos hexa, hrun]
      · intro n
        rw [hl', lookup_filter_name]
        by_cases h : n = a
        · simp [h]
        · by_cases hn : n ∈ names <;> simp [h, hn]

end Phases

section Update

variable {live : List String} {sets : List IpSet} {bs : List Block} {tmpOf : String → String}

/-- A temporary name looks up its staged set. -/
theorem lookup_staged_tmp (hlive : live = sets.map (·.name)) (ht : Temporaries live tmpOf bs)
    (hfresh : Fresh sets (bs.map (stageBlock live tmpOf))) {b : Block} (hb : b ∈ bs)
    (hl : b.name ∈ live) :
    lookup (sets ++ (bs.map (stageBlock live tmpOf)).map Block.set) (tmpOf b.name) =
      some (b.rename (tmpOf b.name)).set := by
  have hnd : (((bs.map (stageBlock live tmpOf)).map Block.set).map (·.name)).Nodup := by
    simpa [List.map_map, Function.comp_def] using hfresh.1
  have hnone : lookup sets (tmpOf b.name) = none :=
    lookup_eq_none_iff.mpr (hlive ▸ (ht b hb hl).1)
  have hmem : (b.rename (tmpOf b.name)).set ∈ (bs.map (stageBlock live tmpOf)).map Block.set := by
    rw [← stageBlock_of_mem hl]
    exact List.mem_map_of_mem (List.mem_map_of_mem hb)
  rw [lookup_append, hnone, Option.none_or]
  exact lookup_of_mem hnd hmem

/-- A name that is neither live nor temporary looks up the same set among the
staged sets as among the blocks' sets. -/
theorem lookup_staged_other (hlive : live = sets.map (·.name))
    (hfresh : Fresh sets (bs.map (stageBlock live tmpOf))) (hnd : (bs.map (·.name)).Nodup)
    {n : String} (hn : n ∉ live) (htmp : ∀ b ∈ bs, b.name ∈ live → tmpOf b.name ≠ n) :
    lookup (sets ++ (bs.map (stageBlock live tmpOf)).map Block.set) n =
      lookup (bs.map Block.set) n := by
  have hnd1 : (((bs.map (stageBlock live tmpOf)).map Block.set).map (·.name)).Nodup := by
    simpa [List.map_map, Function.comp_def] using hfresh.1
  have hnd2 : ((bs.map Block.set).map (·.name)).Nodup := by
    simpa [List.map_map, Function.comp_def] using hnd
  have hnone : lookup sets n = none := lookup_eq_none_iff.mpr (hlive ▸ hn)
  rw [lookup_append, hnone, Option.none_or]
  apply Option.ext
  intro s
  rw [lookup_eq_some_iff hnd1, lookup_eq_some_iff hnd2]
  constructor
  · rintro ⟨hs, rfl⟩
    obtain ⟨c, hc, rfl⟩ := List.mem_map.mp hs
    obtain ⟨b, hb, rfl⟩ := List.mem_map.mp hc
    by_cases hl : b.name ∈ live
    · have hname : (stageBlock live tmpOf b).set.name = tmpOf b.name := by
        rw [stageBlock_of_mem hl]
        rfl
      exact absurd hname.symm (htmp b hb hl)
    · rw [stageBlock_of_not_mem hl]
      exact ⟨List.mem_map_of_mem hb, rfl⟩
  · rintro ⟨hs, rfl⟩
    obtain ⟨b, hb, rfl⟩ := List.mem_map.mp hs
    refine ⟨?_, rfl⟩
    have hl : b.name ∉ live := by simpa using hn
    rw [← @stageBlock_of_not_mem live tmpOf b hl]
    exact List.mem_map_of_mem (List.mem_map_of_mem hb)

/-- A live name that no block keeps names no block. -/
theorem lookup_blocks_stale {n : String}
    (hn : n ∈ staleSets live (stagePairs live tmpOf bs)) : lookup (bs.map Block.set) n = none := by
  obtain ⟨hl, hk⟩ := mem_staleSets.mp hn
  apply lookup_eq_none_iff.mpr
  intro hm
  obtain ⟨s, hs, e⟩ := List.mem_map.mp hm
  obtain ⟨b, hb, rfl⟩ := List.mem_map.mp hs
  have hbn : b.name = n := by simpa using e
  subst hbn
  exact hk (List.mem_map.mpr ⟨_, mem_stagePairs.mpr ⟨b, hb, hl, rfl⟩, rfl⟩)

/-- A temporary name names no block. -/
theorem lookup_blocks_tmp (ht : Temporaries live tmpOf bs)
    (hfresh : Fresh sets (bs.map (stageBlock live tmpOf))) {b : Block} (hb : b ∈ bs)
    (hl : b.name ∈ live) : lookup (bs.map Block.set) (tmpOf b.name) = none := by
  apply lookup_eq_none_iff.mpr
  intro hm
  obtain ⟨s, hs, e⟩ := List.mem_map.mp hm
  obtain ⟨c, hc, rfl⟩ := List.mem_map.mp hs
  have hcn : c.name = tmpOf b.name := by simpa using e
  have hcl : c.name ∉ live := hcn ▸ (ht b hb hl).1
  -- `c` and `b` are staged under one name, so they are one block
  have hinj := List.inj_on_of_nodup_map (by simpa [List.map_map] using hfresh.1) hc hb
  have hcb : c = b := hinj (by simp [stageBlock_of_not_mem hcl, stageBlock_of_mem hl, hcn])
  exact hcl (hcb ▸ hl)

/-- Once the staged lines have run, the swaps, flushes and destroys run too,
and leave exactly the blocks' sets. -/
theorem runAll_after_staging (hv : Valid sets) (hlive : live = sets.map (·.name))
    (hwf : ∀ b ∈ bs, b.Wf) (hnd : (bs.map (·.name)).Nodup) (ht : Temporaries live tmpOf bs)
    (hfresh : Fresh sets (bs.map (stageBlock live tmpOf))) :
    ∃ t, runAll (sets ++ (bs.map (stageBlock live tmpOf)).map Block.set)
        (swapLines (stagePairs live tmpOf bs) ++
          (staleSets live (stagePairs live tmpOf bs)).map ("flush " ++ ·) ++
          (staleSets live (stagePairs live tmpOf bs)).map ("destroy " ++ ·)) = some t ∧
      t.Perm (bs.map Block.set) := by
  have hv1 : Valid (sets ++ (bs.map (stageBlock live tmpOf)).map Block.set) :=
    runAll_valid hv ((runAll_script_iff (stageBlock_wf hwf ht) sets _ []).mpr ⟨hfresh, rfl⟩)
  have hword : ∀ n ∈ live, Text.IsWord n := by
    intro n hn
    rw [hlive] at hn
    obtain ⟨s, hs, rfl⟩ := List.mem_map.mp hn
    exact hv.2 s hs
  have hexists : ∀ n ∈ live, lookup (sets ++ (bs.map (stageBlock live tmpOf)).map Block.set) n ≠ none := by
    intro n hn
    rw [hlive] at hn
    obtain ⟨s, hs, rfl⟩ := List.mem_map.mp hn
    simp [lookup_append, lookup_of_mem hv.1 hs]
  -- the swaps
  obtain ⟨L2, hrun2, hv2, hpairs2, hother2⟩ := runAll_swapLines (stagePairs live tmpOf bs) _ _ hv1
    (fun p hp => by
      obtain ⟨b, hb, hl, rfl⟩ := mem_stagePairs.mp hp
      exact ⟨(hwf b hb).name_word, (ht b hb hl).2.isWord (hwf b hb).name_word⟩)
    (stagePairs_keys_nodup hnd) (stagePairs_tmps_nodup hfresh.1)
    (fun p hp q hq e => by
      obtain ⟨b, hb, hl, rfl⟩ := mem_stagePairs.mp hp
      obtain ⟨c, hc, hcl, rfl⟩ := mem_stagePairs.mp hq
      have e' : b.name = tmpOf c.name := e
      exact (ht c hc hcl).1 (e' ▸ hl))
    (fun p hp => by
      obtain ⟨b, hb, hl, rfl⟩ := mem_stagePairs.mp hp
      refine ⟨hexists _ hl, ?_⟩
      rw [lookup_staged_tmp hlive ht hfresh hb hl]
      simp)
  -- the stale names are live, not swapped, and not temporary
  have hstale : ∀ n ∈ staleSets live (stagePairs live tmpOf bs), Text.IsWord n ∧
      lookup L2 n = lookup (sets ++ (bs.map (stageBlock live tmpOf)).map Block.set) n ∧
      lookup L2 n ≠ none := by
    intro n hn
    obtain ⟨hl, hk⟩ := mem_staleSets.mp hn
    have htmp : n ∉ (stagePairs live tmpOf bs).map (·.2) := by
      intro hm
      obtain ⟨p, hp, rfl⟩ := List.mem_map.mp hm
      obtain ⟨b, hb, hbl, rfl⟩ := mem_stagePairs.mp hp
      exact (ht b hb hbl).1 hl
    have hkeep := hother2 n hk htmp
    exact ⟨hword n hl, hkeep, hkeep ▸ hexists n hl⟩
  -- the flushes and destroys
  obtain ⟨L3, hrun3, hv3, hl3⟩ := runAll_flushes (staleSets live (stagePairs live tmpOf bs)) L2 _ hv2
    (fun n hn => ⟨(hstale n hn).1, (hstale n hn).2.2⟩)
  have hstale_nd : (staleSets live (stagePairs live tmpOf bs)).Nodup :=
    List.filter_sublist.nodup (hlive ▸ hv.1)
  obtain ⟨L4, hrun4, hv4, hl4⟩ := runAll_destroys (staleSets live (stagePairs live tmpOf bs)) L3 []
    hv3 hstale_nd
    (fun n hn => ⟨(hstale n hn).1, by simpa [hl3, hn] using (hstale n hn).2.2⟩)
  refine ⟨L4, ?_, ?_⟩
  · rw [List.append_nil] at hrun4
    rw [List.append_assoc, hrun2, hrun3, hrun4]
    rfl
  · apply perm_of_lookup_eq hv4.1 (by simpa [List.map_map, Function.comp_def] using hnd)
    intro n
    rw [hl4, hl3]
    by_cases hs : n ∈ staleSets live (stagePairs live tmpOf bs)
    · rw [if_pos hs, lookup_blocks_stale hs]
    · rw [if_neg hs, if_neg hs]
      by_cases hk : n ∈ (stagePairs live tmpOf bs).map (·.1)
      · -- a live name that a block keeps gets the block's set
        obtain ⟨p, hp, rfl⟩ := List.mem_map.mp hk
        obtain ⟨b, hb, hl, rfl⟩ := mem_stagePairs.mp hp
        have hnd' : ((bs.map Block.set).map (·.name)).Nodup := by
          simpa [List.map_map, Function.comp_def] using hnd
        rw [(hpairs2 _ hp).2, lookup_staged_tmp hlive ht hfresh hb hl]
        have hb' := lookup_of_mem hnd' (List.mem_map_of_mem hb)
        rw [Block.set_name] at hb'
        rw [hb']
        rfl
      · by_cases htm : n ∈ (stagePairs live tmpOf bs).map (·.2)
        · -- a temporary name is gone
          obtain ⟨p, hp, rfl⟩ := List.mem_map.mp htm
          obtain ⟨b, hb, hl, rfl⟩ := mem_stagePairs.mp hp
          rw [(hpairs2 _ hp).1, lookup_blocks_tmp ht hfresh hb hl]
        · rw [hother2 n hk htm]
          have hn : n ∉ live := fun hl => hs (mem_staleSets.mpr ⟨hl, hk⟩)
          exact lookup_staged_other hlive hfresh hnd hn
            (fun b hb hl e => htm (List.mem_map.mpr ⟨_, mem_stagePairs.mpr ⟨b, hb, hl, rfl⟩, e⟩))

end Update

section Script

variable {sets : List IpSet} {bs : List Block}

/-- Two names, each followed by a dot and more, are equal, or one extends the
other by a dot. -/
theorem eq_or_dotted {a b x y : List Char} (h : a ++ '.' :: x = b ++ '.' :: y) :
    a = b ∨ (a ++ ['.']) <+: b ∨ (b ++ ['.']) <+: a := by
  rcases List.append_eq_append_iff.mp h with ⟨a', hb, hx⟩ | ⟨b', ha, hy⟩
  · cases a' with
    | nil => exact .inl (by simpa using hb.symm)
    | cons d a'' =>
        obtain ⟨rfl, -⟩ := List.cons.inj hx
        exact .inr (.inl ⟨a'', by simp [hb]⟩)
  · cases b' with
    | nil => exact .inl (by simpa using ha)
    | cons d b'' =>
        obtain ⟨rfl, -⟩ := List.cons.inj hy
        exact .inr (.inr ⟨b'', by simp [ha]⟩)

/-- No block outside the live sets bears a live block's temporary name: its
name, a dot and three lowercase letters. -/
def TempFree (live : List String) (bs : List Block) : Prop :=
  ∀ b ∈ bs, b.name ∈ live → ∀ c ∈ bs, c.name ∉ live → ¬ TempName b.name c.name

instance (live : List String) (bs : List Block) : Decidable (TempFree live bs) :=
  inferInstanceAs (Decidable (∀ b ∈ bs, b.name ∈ live → ∀ c ∈ bs, c.name ∉ live → _))

-- A set `lan.v4` beside a live set `lan` leaves the temporary names of `lan` free.
example : TempFree ["lan"] [⟨"lan", "hash:ip", []⟩, ⟨"lan.v4", "hash:ip", []⟩] := by
  decide +kernel

/-- A temporary name tells its set: a name that extended the other by a dot
would leave a dot among the three letters. -/
theorem TempName.inj {a b tmp : String} (ha : TempName a tmp) (hb : TempName b tmp) : a = b := by
  obtain ⟨x, rfl, hx⟩ := ha
  obtain ⟨y, hy, hy'⟩ := hb
  have hxy : a.toList ++ '.' :: x.toList = b.toList ++ '.' :: y.toList := by
    simpa [String.toList_append] using congrArg String.toList hy
  rcases eq_or_dotted hxy with h | ⟨z, hz⟩ | ⟨z, hz⟩
  · exact String.toList_inj.mp h
  · rw [← hz] at hxy
    have hdot : x.toList = z ++ '.' :: y.toList := by simpa using hxy
    exact absurd (hdot ▸ List.mem_append_right _ List.mem_cons_self) hx.dot_not_mem
  · rw [← hz] at hxy
    have hdot : y.toList = z ++ '.' :: x.toList := by simpa using hxy.symm
    exact absurd (hdot ▸ List.mem_append_right _ List.mem_cons_self) hy'.dot_not_mem

/-- With the live blocks' temporary names free, the staged sets are new and
distinct. -/
theorem fresh_staged {live : List String} {tmpOf : String → String}
    (hlive : live = sets.map (·.name)) (hnd : (bs.map (·.name)).Nodup)
    (ht : Temporaries live tmpOf bs) (hu : TempFree live bs) :
    Fresh sets (bs.map (stageBlock live tmpOf)) := by
  -- a block whose staged name is another's is that block
  have hinj : ∀ b ∈ bs, ∀ c ∈ bs,
      (stageBlock live tmpOf b).name = (stageBlock live tmpOf c).name → b = c := by
    intro b hb c hc e
    apply List.inj_on_of_nodup_map hnd hb hc
    by_cases hbl : b.name ∈ live <;> by_cases hcl : c.name ∈ live
    · rw [stageBlock_of_mem hbl, stageBlock_of_mem hcl, Block.rename_name, Block.rename_name] at e
      exact (ht b hb hbl).2.inj (by rw [e]; exact (ht c hc hcl).2)
    · rw [stageBlock_of_mem hbl, stageBlock_of_not_mem hcl, Block.rename_name] at e
      exact absurd (by rw [← e]; exact (ht b hb hbl).2) (hu b hb hbl c hc hcl)
    · rw [stageBlock_of_not_mem hbl, stageBlock_of_mem hcl, Block.rename_name] at e
      exact absurd (by rw [e]; exact (ht c hc hcl).2) (hu c hc hcl b hb hbl)
    · rw [stageBlock_of_not_mem hbl, stageBlock_of_not_mem hcl] at e
      exact e
  refine ⟨?_, ?_⟩
  · rw [List.map_map]
    exact List.Nodup.map_on hinj (List.Nodup.of_map _ hnd)
  · intro c hc
    obtain ⟨b, hb, rfl⟩ := List.mem_map.mp hc
    rw [← hlive]
    by_cases hbl : b.name ∈ live
    · rw [stageBlock_of_mem hbl]
      exact (ht b hb hbl).1
    · rw [stageBlock_of_not_mem hbl]
      exact hbl

/-- The script built for a block script: its staged lines, then the swaps,
flushes and destroys. -/
theorem swapScript_staged {live : List String} (hwf : ∀ b ∈ bs, b.Wf)
    (hnd : (bs.map (·.name)).Nodup) {w w' : Words} (hw : w.Plain) {out : List String}
    (hs : Drawing.run (swapScript live (script bs)) w = (.ok out, w')) :
    ∃ tmpOf, Temporaries live tmpOf bs ∧
      out = bs.flatMap (stageLines live tmpOf) ++
        (swapLines (stagePairs live tmpOf bs) ++
          (staleSets live (stagePairs live tmpOf bs)).map ("flush " ++ ·) ++
          (staleSets live (stagePairs live tmpOf bs)).map ("destroy " ++ ·)) := by
  rw [swapScript_run] at hs
  rcases hf : Drawing.run ((script bs).foldlM (Staging.step live) ⟨[], [], none⟩) w with
    ⟨_ | r, w1⟩
  · rw [hf] at hs
    cases hs
  · rw [hf] at hs
    simp only [Prod.mk.injEq, Except.ok.injEq] at hs
    obtain ⟨rfl, -⟩ := hs
    obtain ⟨tmpOf, htemp, hlines, htemps, -⟩ :=
      staging_run bs _ r w w1 hwf hnd (by simp) (by simp) hw hf
    refine ⟨tmpOf, htemp, ?_⟩
    rw [hlines, htemps]
    simp only [List.nil_append, List.append_assoc]

/-- The script built for a block script over live sets with word names has
no line boundary inside a line. -/
theorem swapScript_oneLine {live : List String} (hlive : ∀ n ∈ live, Text.IsWord n)
    (hwf : ∀ b ∈ bs, b.Wf) (hnd : (bs.map (·.name)).Nodup) {w w' : Words} (hw : w.Plain)
    {out : List String} (hs : Drawing.run (swapScript live (script bs)) w = (.ok out, w')) :
    ∀ l ∈ out, Text.OneLine l := by
  obtain ⟨tmpOf, htemp, rfl⟩ := swapScript_staged hwf hnd hw hs
  have lit : ∀ s ∈ ["swap ", " ", "destroy ", "flush "], Text.OneLine s := by decide
  have hcmd : ∀ {pre n : String}, pre ∈ ["swap ", " ", "destroy ", "flush "] → Text.IsWord n →
      Text.OneLine (pre ++ n) :=
    fun hp hn => (lit _ hp).append hn.oneLine
  intro l hl
  simp only [List.mem_append, List.mem_flatMap, List.mem_map] at hl
  rcases hl with ⟨b, hb, hl⟩ | ((hl | ⟨n, hn, rfl⟩) | ⟨n, hn, rfl⟩)
  · -- a staged line: a block's line, renamed when its set is live
    by_cases hbl : b.name ∈ live
    · simp only [stageLines, hbl, if_true, List.mem_map] at hl
      obtain ⟨l0, hl0, rfl⟩ := hl
      exact oneLine_replaceFirst (oneLine_lines (hwf b hb) l0 hl0)
        ((htemp b hb hbl).2.isWord (hwf b hb).name_word).oneLine
    · simp only [stageLines, hbl, if_false] at hl
      exact oneLine_lines (hwf b hb) l hl
  · -- a swap or a destroy of a temporary set
    simp only [swapLines, List.mem_flatMap] at hl
    obtain ⟨⟨set, tmp⟩, hp, hl⟩ := hl
    obtain ⟨c, hc, hcl, he⟩ := mem_stagePairs.mp hp
    simp only [Prod.mk.injEq] at he
    obtain ⟨rfl, rfl⟩ := he
    have htw := (htemp c hc hcl).2.isWord (hwf c hc).name_word
    simp only [List.mem_cons, List.not_mem_nil, or_false] at hl
    rcases hl with rfl | rfl
    · exact ((hcmd (by simp) htw).append (lit " " (by simp))).append (hwf c hc).name_word.oneLine
    · exact hcmd (by simp) htw
  · exact hcmd (by simp) (hlive n (mem_staleSets.mp hn).1)
  · exact hcmd (by simp) (hlive n (mem_staleSets.mp hn).1)

/-- Whenever the script built to load a block script over the live sets runs,
it leaves exactly the sets the blocks describe, whatever words were drawn. -/
theorem runAll_swapScript_perm (hv : Valid sets) (hwf : ∀ b ∈ bs, b.Wf)
    (hnd : (bs.map (·.name)).Nodup) {w w' : Words} (hw : w.Plain) {out : List String}
    (hs : Drawing.run (swapScript (sets.map (·.name)) (script bs)) w = (.ok out, w'))
    {t : List IpSet} (ht : runAll sets out = some t) : t.Perm (bs.map Block.set) := by
  obtain ⟨tmpOf, htemp, rfl⟩ := swapScript_staged hwf hnd hw hs
  obtain ⟨hfresh, hrest⟩ := runAll_staged_some hwf htemp ht
  obtain ⟨t', hrun, hperm⟩ := runAll_after_staging hv rfl hwf hnd htemp hfresh
  rw [hrun, Option.some.injEq] at hrest
  exact hrest ▸ hperm

/-- The script built to load a block script runs, and leaves exactly the sets
the blocks describe, when no live set's name lies inside a command word of its
lines and no block outside the live sets bears a live set's name, a dot and
three lowercase letters. -/
theorem swapScript_runs (hv : Valid sets) (hwf : ∀ b ∈ bs, b.Wf)
    (hnd : (bs.map (·.name)).Nodup) (hclear : ∀ b ∈ bs, b.name ∈ sets.map (·.name) → b.NameClear)
    (hu : TempFree (sets.map (·.name)) bs) {w w' : Words} (hw : w.Plain) {out : List String}
    (hs : Drawing.run (swapScript (sets.map (·.name)) (script bs)) w = (.ok out, w')) :
    ∃ t, runAll sets out = some t ∧ t.Perm (bs.map Block.set) := by
  obtain ⟨tmpOf, htemp, rfl⟩ := swapScript_staged hwf hnd hw hs
  have hfresh := fresh_staged rfl hnd htemp hu
  obtain ⟨t, hrun, hperm⟩ := runAll_after_staging hv rfl hwf hnd htemp hfresh
  have hlines : bs.flatMap (stageLines (sets.map (·.name)) tmpOf) =
      script (bs.map (stageBlock (sets.map (·.name)) tmpOf)) := by
    rw [script, List.flatMap_map]
    exact List.flatMap_congr fun b hb => stageLines_eq (hwf b hb) (hclear b hb)
  refine ⟨t, ?_, hperm⟩
  rw [hlines, runAll_script_iff (stageBlock_wf hwf htemp)]
  exact ⟨hfresh, hrun⟩

/-- Replacing a live set `s` by one with an entry: the script runs and leaves
that set alone. -/
theorem swapScript_replaces_live_set :
    Drawing.run (swapScript ["s"] (script [⟨"s", "hash:ip", ["1.2.3.4"]⟩])) (Words.ofList []) =
        (.ok ["create s.aaa hash:ip", "add s.aaa 1.2.3.4", "swap s.aaa s", "destroy s.aaa"], ⟨[], 1⟩) ∧
      ∃ t, runAll [⟨"s", "hash:ip", []⟩]
          ["create s.aaa hash:ip", "add s.aaa 1.2.3.4", "swap s.aaa s", "destroy s.aaa"] = some t ∧
        t.Perm (([⟨"s", "hash:ip", ["1.2.3.4"]⟩] : List Block).map Block.set) := by
  have hs : Drawing.run (swapScript ["s"] (script [⟨"s", "hash:ip", ["1.2.3.4"]⟩])) (Words.ofList []) =
      (.ok ["create s.aaa hash:ip", "add s.aaa 1.2.3.4", "swap s.aaa s", "destroy s.aaa"], ⟨[], 1⟩) := by
    decide +kernel
  have hv : Valid [⟨"s", "hash:ip", []⟩] := by
    unfold Valid
    decide
  have hwf : ∀ b ∈ ([⟨"s", "hash:ip", ["1.2.3.4"]⟩] : List Block), b.Wf := by
    simp only [List.mem_singleton, forall_eq]
    exact ⟨by decide, by decide, by decide,
      by decide⟩
  have hu : TempFree ["s"] ([⟨"s", "hash:ip", ["1.2.3.4"]⟩] : List Block) := by
    intro _ _ _ c hc hcl
    rw [List.mem_singleton.mp hc] at hcl
    exact absurd List.mem_cons_self hcl
  refine ⟨hs, swapScript_runs hv hwf (by decide) ?_ hu (fun _ h => by cases h) hs⟩
  simp only [List.mem_singleton, forall_eq]
  intro _
  unfold Block.NameClear
  decide

/-- A live set named `a` lies inside the command word `create`: the script
built to replace it breaks that word, and the kernel refuses it. -/
theorem swapScript_breaks_command_word :
    Drawing.run (swapScript ["a"] (script [⟨"a", "hash:ip", []⟩])) (Words.ofList []) =
        (.ok ["crea.aaate a hash:ip", "swap a.aaa a", "destroy a.aaa"], ⟨[], 1⟩) ∧
      runAll [⟨"a", "hash:ip", []⟩] ["crea.aaate a hash:ip", "swap a.aaa a", "destroy a.aaa"] =
        none := by
  decide +kernel

end Script

end Ipset
end Firewall
