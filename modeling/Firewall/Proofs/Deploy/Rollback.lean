import Firewall.Proofs.Deploy.Apply

/-!
# Rolling back to a snapshot

A guarded action (`Deploy.guarded`) takes a snapshot of the running rulesets
before it runs.  Should the action fail, it logs a warning, loads the snapshot
again (`Deploy.rollback`) and raises the action's fault, or the rollback's own
when that fails too.  This module follows it on the in-memory kernel.

**The snapshot as a script.**  The kernel lists a set as a `create` line and
one `add` line per entry (`IpSet.listing`).  For a set that the kernel keeps in
normal form (`IpSet.Kept`) that is the set's block, which makes the set again:
so the listing of the sets is a block script (`listing_script`), and loading
it back is an apply of the blocks.

**Results.**
* `guarded_run`: the run of a guarded action, by the outcome of the action and
  of the rollback.
* `rollback_restores`: a rollback that returns normally, from any sound world,
  leaves the snapshot's packet filter rulesets loaded again and exactly its
  sets (`Restores`).
* `rollback_ok`: the rollback does return normally when no load is refused and
  the atomic update of the sets runs.
* `apply_all_or_nothing`: applying returns normally only with the configured
  rulesets in place; and a guarded action that fails raises its fault with the
  snapshot restored, or the fault of a rollback that failed.
-/

namespace Firewall

namespace IpSet

/-- A set as the kernel keeps it: its specification and entries in normal
form, the specification and every entry with a word. -/
structure Kept (s : IpSet) : Prop where
  spec_normal : Text.normal s.spec = s.spec
  spec_word : Text.words s.spec ≠ []
  entry_normal : ∀ e ∈ s.entries, Text.normal e = e
  entry_word : ∀ e ∈ s.entries, Text.words e ≠ []

instance (s : IpSet) : Decidable s.Kept :=
  decidable_of_iff (Text.normal s.spec = s.spec ∧ Text.words s.spec ≠ [] ∧
      (∀ e ∈ s.entries, Text.normal e = e) ∧ ∀ e ∈ s.entries, Text.words e ≠ [])
    ⟨fun ⟨a, b, c, d⟩ => ⟨a, b, c, d⟩, fun ⟨a, b, c, d⟩ => ⟨a, b, c, d⟩⟩

/-- The block that introduces a set. -/
def block (s : IpSet) : Block := ⟨s.name, s.spec, s.entries⟩

variable {s : IpSet}

/-- A kept set is listed as its block: its specification ends in a word, so
the listing strips nothing from the `create` line. -/
theorem Kept.listing_eq (h : s.Kept) : s.listing = (block s).lines := by
  obtain ⟨p, w, hp, hw⟩ := Text.normal_eq_append_word h.spec_word
  have hspec : s.spec = p ++ w := h.spec_normal ▸ hp
  have hcreate : "create " ++ s.name ++ " " ++ s.spec = "create " ++ s.name ++ " " ++ p ++ w := by
    simp only [hspec, String.append_assoc]
  unfold IpSet.listing Block.lines block
  rw [hcreate, Text.stripEnd_append_word hw]

/-- The block of a kept set makes the set again. -/
theorem Kept.block_set (h : s.Kept) : (block s).set = s := by
  have hentries : s.entries.map Text.normal = s.entries := by
    have hid : ∀ e ∈ s.entries, Text.normal e = id e := h.entry_normal
    rw [List.map_congr_left hid, List.map_id]
  simp only [Block.set, block, h.spec_normal, hentries]

theorem Kept.block_wf (h : s.Kept) (hn : Text.IsWord s.name) : (block s).Wf := by
  refine ⟨hn, ?_, fun e he => ?_, h.entry_word⟩
  · show Text.OneLine s.spec
    rw [← h.spec_normal]
    exact Text.oneLine_normal _
  · rw [← h.entry_normal e he]
    exact Text.oneLine_normal _

variable {sets : List IpSet}

/-- The listing of kept sets is the script of their blocks. -/
theorem listing_script (hk : ∀ s ∈ sets, s.Kept) : sets.flatMap IpSet.listing = script (sets.map block) := by
  rw [script, List.flatMap_map]
  exact List.flatMap_congr fun s hs => (hk s hs).listing_eq

theorem blocks_set (hk : ∀ s ∈ sets, s.Kept) : (sets.map block).map Block.set = sets := by
  rw [List.map_map]
  conv_rhs => rw [← List.map_id sets]
  exact List.map_congr_left fun s hs => (hk s hs).block_set

end IpSet

namespace Deploy

open Ipset IpSet

/-- The running rulesets of an in-memory kernel. -/
def Snapshot.ofKernel (k : Kernel) : Snapshot :=
  ⟨k.running .iptables, k.running .ip6tables, k.running .ipsets⟩

/-- A kernel holds again what another held: the other's packet filter
rulesets, as loading their listings gives them, and the same sets. -/
structure Restores (k k' : Kernel) : Prop where
  iptables : k'.iptables = Text.lines (Kernel.scriptText k.iptables)
  ip6tables : k'.ip6tables = Text.lines (Kernel.scriptText k.ip6tables)
  sets : k'.sets.Perm k.sets

/-- A world after the warning that the rulesets are rolled back. -/
def warned (w : World) : World := { w with logs := w.logs ++ [(.warning, "Rolling back...")] }

theorem run_warning (w : World) :
    Act.run (Act.log .warning "Rolling back...") w = (.ok (), warned w) := rfl

variable {cfg : Config} {w w₁ w₂ : World} {k k₁ : Kernel}

theorem running_run_memory (hk : w.host = .memory k) (kind : Ruleset.Kind) :
    Act.run (Host.running cfg.commands kind) w = (.ok (k.running kind), w) := by
  unfold Host.running
  rw [Act.run_bind, Act.run_get]
  simp only [hk]
  rfl

theorem snapshot_run (hk : w.host = .memory k) :
    Act.run (snapshot cfg) w = (.ok (Snapshot.ofKernel k), w) := by
  unfold snapshot
  simp only [Act.run_bind, running_run_memory hk]
  rfl

/-- A guarded action on the in-memory kernel: the action runs on the snapshot
of the kernel; when it fails, the snapshot is rolled back after the warning,
and the action's fault is raised unless the rollback fails too. -/
theorem guarded_run {α : Type} (hk : w.host = .memory k) (action : Snapshot → Act α) :
    Act.run (guarded cfg action) w =
      match Act.run (action (Snapshot.ofKernel k)) w with
      | (.ok a, w₁) => (.ok a, w₁)
      | (.error f, w₁) =>
        match Act.run (rollback cfg (some (Snapshot.ofKernel k))) (warned w₁) with
        | (.ok _, w₂) => (.error f, w₂)
        | (.error g, w₂) => (.error g, w₂) := by
  unfold guarded
  rw [Act.run_bind, snapshot_run hk]
  dsimp only
  rw [Act.run_tryCatch]
  rcases Act.run (action (Snapshot.ofKernel k)) w with ⟨f | a, w₁⟩
  · dsimp only
    rw [Act.run_bind, run_warning]
    dsimp only
    rw [Act.run_bind]
    rcases Act.run (rollback cfg (some (Snapshot.ofKernel k))) (warned w₁) with ⟨g | u, w₂⟩ <;> rfl
  · rfl

section Rollback

variable (hv : k.Valid)
include hv

theorem snapshot_blocks_nodup : ((k.sets.map block).map (·.name)).Nodup := by
  rw [List.map_map]
  exact hv.1

variable (hkept : ∀ s ∈ k.sets, s.Kept)
include hkept

theorem snapshot_blocks_wf : ∀ b ∈ k.sets.map block, b.Wf := by
  intro b hb
  obtain ⟨s, hs, rfl⟩ := List.mem_map.mp hb
  exact (hkept s hs).block_wf (hv.2 s hs)

/-- A rollback that returns normally, from any sound world, leaves the
snapshot's packet filter rulesets loaded again and exactly its sets, whether
the sets were updated atomically or after clearing. -/
theorem rollback_restores (hw : w₁.Sound)
    (h : Act.run (rollback cfg (some (Snapshot.ofKernel k))) w₁ = (.ok (), w₂)) :
    ∃ k₂, w₂.host = .memory k₂ ∧ Restores k k₂ := by
  unfold rollback at h
  simp only [Snapshot.ofKernel, Kernel.running, listing_script hkept] at h
  obtain ⟨k₂, hk₂, hipt, hip6, hperm⟩ :=
    loadAll_ok (snapshot_blocks_wf hv hkept) (snapshot_blocks_nodup hv) hw h
  rw [blocks_set hkept] at hperm
  exact ⟨k₂, hk₂, hipt, hip6, hperm⟩

/-- The rollback returns normally when the kernel refuses none of the three
loads and the atomic update of the sets runs: the snapshot's sets are named
clear of the command words where they are live, none bears a live set's
temporary name, and their temporary names can be drawn. -/
theorem rollback_ok (hw : w₁.Sound) (hk₁ : w₁.host = .memory k₁)
    (hpend : ∀ kind : Ruleset.Kind, k₁.pending kind.key ≤ 0)
    (hclear : ∀ b ∈ k.sets.map block, b.name ∈ k₁.setNames → b.NameClear)
    (hu : TempFree k₁.setNames (k.sets.map block)) {out : List String} {words : Words}
    (hdraw : Drawing.run (swapScript k₁.setNames (script (k.sets.map block))) w₁.words =
      (.ok out, words)) :
    ∃ w₂, Act.run (rollback cfg (some (Snapshot.ofKernel k))) w₁ = (.ok (), w₂) := by
  obtain ⟨k₁', hk₁', hv₁, hp⟩ := hw
  rw [hk₁] at hk₁'
  cases hk₁'
  have hwf := snapshot_blocks_wf hv hkept
  have hnd := snapshot_blocks_nodup hv
  -- the atomic update runs on the live sets
  obtain ⟨t, hrun, -⟩ := swapScript_runs hv₁ hwf hnd hclear hu hp hdraw
  have hone := swapScript_oneLine (fun n hn => by
    obtain ⟨s, hs, rfl⟩ := List.mem_map.mp hn
    exact hv₁.2 s hs) hwf hnd hp hdraw
  have hsets : k₁.load .ipsets out = .ok { k₁ with sets := t } :=
    Kernel.load_ipsets_eq_ok_iff.mpr
      ⟨hpend .ipsets, t, by rw [Kernel.runAll_lines_scriptText _ hone]; exact hrun, rfl⟩
  obtain ⟨w₃, h₃, hk₃⟩ := Host.load_run_ok cfg.commands
    (show ({ w₁ with words := words } : World).host = .memory k₁ from hk₁) hsets
  -- the packet filter loads find the refusals as the update left them
  obtain ⟨w₄, h₄, hk₄⟩ := Host.load_run_ok cfg.commands hk₃
    (show Kernel.load _ .iptables k.iptables = _ from
      Kernel.load_iptables_eq_ok_iff.mpr ⟨hpend .iptables, rfl⟩)
  obtain ⟨w₅, h₅, -⟩ := Host.load_run_ok cfg.commands hk₄
    (show Kernel.load _ .ip6tables k.ip6tables = _ from
      Kernel.load_ip6tables_eq_ok_iff.mpr ⟨hpend .ip6tables, rfl⟩)
  refine ⟨w₅, ?_⟩
  unfold rollback loadAll
  simp only [Snapshot.ofKernel, Kernel.running, listing_script hkept]
  rw [Act.run_bind, Act.run_tryCatch, loadSets_run hk₁, hdraw]
  dsimp only
  rw [h₃]
  dsimp only
  rw [Act.run_bind, h₄]
  exact h₅

end Rollback

section Guarded

variable {α : Type} {body : Snapshot → Act α} {f : Fault}

theorem warned_sound (hw : w₁.Sound) : (warned w₁).Sound := hw

/-- A guarded action that fails raises its fault with the snapshot restored,
unless the rollback fails, which then raises its own fault. -/
theorem guarded_restores_or_fails (hw : w.Sound) (hk : w.host = .memory k)
    (hkept : ∀ s ∈ k.sets, s.Kept) (hbody : ∀ s, (body s).KeepsSound)
    (hfail : Act.run (body (Snapshot.ofKernel k)) w = (.error f, w₁)) :
    ∃ w₂, (Act.run (guarded cfg body) w = (.error f, w₂) ∧ ∃ k₂, w₂.host = .memory k₂ ∧ Restores k k₂) ∨
      ∃ g, Act.run (rollback cfg (some (Snapshot.ofKernel k))) (warned w₁) = (.error g, w₂) ∧
        Act.run (guarded cfg body) w = (.error g, w₂) := by
  obtain ⟨k', hk', hv, hp⟩ := hw
  rw [hk] at hk'
  cases hk'
  have hw₁ : (warned w₁).Sound := warned_sound ((hbody _).run ⟨k, hk, hv, hp⟩ hfail)
  rw [guarded_run hk, hfail]
  dsimp only
  rcases hr : Act.run (rollback cfg (some (Snapshot.ofKernel k))) (warned w₁) with ⟨g | u, w₂⟩
  · exact ⟨w₂, .inr ⟨g, rfl, rfl⟩⟩
  · exact ⟨w₂, .inl ⟨rfl, rollback_restores hv hkept hw₁ hr⟩⟩

/-- A guarded action that fails, where the kernel then refuses none of the
three loads and the atomic update of the snapshot's sets runs, raises its
fault with the snapshot restored. -/
theorem guarded_restores (hw : w.Sound) (hk : w.host = .memory k)
    (hkept : ∀ s ∈ k.sets, s.Kept) (hbody : ∀ s, (body s).KeepsSound)
    (hfail : Act.run (body (Snapshot.ofKernel k)) w = (.error f, w₁))
    (hk₁ : w₁.host = .memory k₁) (hpend : ∀ kind : Ruleset.Kind, k₁.pending kind.key ≤ 0)
    (hclear : ∀ b ∈ k.sets.map block, b.name ∈ k₁.setNames → b.NameClear)
    (hu : TempFree k₁.setNames (k.sets.map block)) {out : List String} {words : Words}
    (hdraw : Drawing.run (swapScript k₁.setNames (script (k.sets.map block))) w₁.words =
      (.ok out, words)) :
    ∃ w₂, Act.run (guarded cfg body) w = (.error f, w₂) ∧ ∃ k₂, w₂.host = .memory k₂ ∧ Restores k k₂ := by
  obtain ⟨k', hk', hv, hp⟩ := hw
  rw [hk] at hk'
  cases hk'
  have hw₁ : (warned w₁).Sound := warned_sound ((hbody _).run ⟨k, hk, hv, hp⟩ hfail)
  -- the warning changes neither the kernel nor the supply of words
  obtain ⟨w₂, hr⟩ := rollback_ok hv hkept hw₁ hk₁ hpend hclear hu hdraw
  rw [guarded_run hk, hfail]
  dsimp only
  rw [hr]
  exact ⟨w₂, rfl, rollback_restores hv hkept hw₁ hr⟩

end Guarded

/-- Applying is all or nothing, with a rollback, from every sound world.
When applying a configuration returns normally, the kernel holds its restore
script in both packet filters and, when its ipset script introduces each set
by a `create` line followed by its `add` lines, exactly the sets that script
describes, whether the atomic update of the live sets succeeded or the
firewall was cleared first.  When a guarded action, whatever it does, fails on
the snapshot of a kernel that keeps its sets in normal form, the guarded run
raises the action's fault with the snapshot's rulesets loaded again and
exactly its sets, or, when the rollback fails too, the rollback's fault. -/
theorem apply_all_or_nothing (cfg : Config) {w : World} (hw : w.Sound) :
    (∀ (w' : World) (listing : Ipset.Listing) (bs : List Block),
      Ipset.listing cfg.tree = .ok listing → listing.lines = script bs → (∀ b ∈ bs, b.Wf) →
      (bs.map (·.name)).Nodup → Act.run (apply cfg) w = (.ok (), w') →
      ∃ rules k', Restore.ofConfig cfg.tree = .ok rules ∧ w'.host = .memory k' ∧
        k'.iptables = Text.lines (Kernel.scriptText rules) ∧
        k'.ip6tables = Text.lines (Kernel.scriptText rules) ∧ k'.sets.Perm (bs.map Block.set)) ∧
    ∀ {α : Type} (body : Snapshot → Act α) (w₁ : World) (k : Kernel) (f : Fault),
      w.host = .memory k → (∀ s ∈ k.sets, s.Kept) → (∀ s, (body s).KeepsSound) →
      Act.run (body (Snapshot.ofKernel k)) w = (.error f, w₁) →
      ∃ w₂, (Act.run (guarded cfg body) w = (.error f, w₂) ∧
          ∃ k₂, w₂.host = .memory k₂ ∧ Restores k k₂) ∨
        ∃ g, Act.run (rollback cfg (some (Snapshot.ofKernel k))) (warned w₁) = (.error g, w₂) ∧
          Act.run (guarded cfg body) w = (.error g, w₂) :=
  ⟨fun _ _ _ hlist hbs hwf hnd h => apply_leaves_configured_rulesets hlist hbs hwf hnd hw h,
    fun _ _ _ _ hk hkept hbody hfail => guarded_restores_or_fails hw hk hkept hbody hfail⟩

/-- A world whose in-memory kernel holds an empty set `s` and no rules, and
will refuse the next iptables load. -/
def refusingS : World :=
  ⟨.memory ⟨[], [], [⟨"s", "hash:ip", []⟩], [("iptables", 1)]⟩, default, Words.ofList [], [], [],
    "", []⟩

/-- Applying `oneSet` over a live empty `s` returns normally and leaves `s`
with its address.  Where the kernel refuses the iptables load, applying it
fails after `s` was updated, and the guarded apply raises the refusal with `s`
empty again. -/
theorem oneSet_all_or_nothing :
    ((Act.run (apply oneSet) liveS).1 = .ok () ∧
      ∃ rules k', Restore.ofConfig oneSet.tree = .ok rules ∧
        (Act.run (apply oneSet) liveS).2.host = .memory k' ∧
        k'.iptables = Text.lines (Kernel.scriptText rules) ∧
        k'.ip6tables = Text.lines (Kernel.scriptText rules) ∧
        k'.sets.Perm (([⟨"s", "hash:ip", ["1.2.3.4"]⟩] : List Block).map Block.set)) ∧
    (Act.run (apply oneSet) refusingS).1 = .error (.rulesetFailed "iptables-restore: forced failure") ∧
      ∃ w₂ k₂, Act.run (guarded oneSet fun _ => apply oneSet) refusingS =
          (.error (.rulesetFailed "iptables-restore: forced failure"), w₂) ∧
        w₂.host = .memory k₂ ∧ Restores ⟨[], [], [⟨"s", "hash:ip", []⟩], [("iptables", 1)]⟩ k₂ := by
  -- applying over the live set returns normally
  have hrun : (Act.run (apply oneSet) liveS).1 = .ok () := by decide +kernel
  have h : Act.run (apply oneSet) liveS = (.ok (), (Act.run (apply oneSet) liveS).2) := by
    rw [← hrun, Prod.eta]
  have hlines : (Ipset.listing oneSet.tree).map (·.lines) =
      .ok (script [⟨"s", "hash:ip", ["1.2.3.4"]⟩]) := by decide +kernel
  have hw : liveS.Sound := by
    refine ⟨_, rfl, ?_, fun _ h => nomatch h⟩
    unfold Kernel.Valid IpSet.Valid
    decide
  have hwf : ∀ b ∈ ([⟨"s", "hash:ip", ["1.2.3.4"]⟩] : List Block), b.Wf := by
    simp only [List.mem_singleton, forall_eq]
    exact ⟨by decide, by decide, by decide, by decide⟩
  have hleaves : ∃ rules k', Restore.ofConfig oneSet.tree = .ok rules ∧
      (Act.run (apply oneSet) liveS).2.host = .memory k' ∧
      k'.iptables = Text.lines (Kernel.scriptText rules) ∧
      k'.ip6tables = Text.lines (Kernel.scriptText rules) ∧
      k'.sets.Perm (([⟨"s", "hash:ip", ["1.2.3.4"]⟩] : List Block).map Block.set) := by
    -- the listing has no decidable equality: name it through its lines
    cases hl : Ipset.listing oneSet.tree with
    | error f =>
        rw [hl] at hlines
        cases hlines
    | ok listing =>
        rw [hl] at hlines
        exact (apply_all_or_nothing oneSet hw).1 _ listing _ hl (Except.ok.inj hlines) hwf
          (by decide) h
  -- the refused load makes the apply fail, and the rollback then runs
  have hfail : (Act.run (apply oneSet) refusingS).1 =
      .error (.rulesetFailed "iptables-restore: forced failure") := by decide +kernel
  have h₁ : Act.run (apply oneSet) refusingS = (.error (.rulesetFailed
      "iptables-restore: forced failure"), (Act.run (apply oneSet) refusingS).2) := by
    rw [← hfail, Prod.eta]
  have hrefusing : refusingS.Sound := by
    refine ⟨_, rfl, ?_, fun _ h => nomatch h⟩
    unfold Kernel.Valid IpSet.Valid
    decide
  have hkept : ∀ s ∈ ([⟨"s", "hash:ip", []⟩] : List IpSet), s.Kept := by decide +kernel
  have hback : (Act.run (rollback oneSet (some (Snapshot.ofKernel
      ⟨[], [], [⟨"s", "hash:ip", []⟩], [("iptables", 1)]⟩)))
      (warned (Act.run (apply oneSet) refusingS).2)).1 = .ok () := by decide +kernel
  obtain ⟨w₂, hcase⟩ := (apply_all_or_nothing oneSet hrefusing).2 (fun _ => apply oneSet) _ _ _ rfl
    hkept (fun _ => keepsSound_apply) h₁
  rcases hcase with ⟨hg, k₂, hk₂, hres⟩ | ⟨g, hr, -⟩
  · exact ⟨⟨hrun, hleaves⟩, hfail, w₂, k₂, hg, hk₂, hres⟩
  · rw [hr] at hback
    cases hback

end Deploy
end Firewall
