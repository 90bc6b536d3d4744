import Firewall.Deploy
import Firewall.Proofs.Host.World
import Firewall.Proofs.Ipset.Swap

/-!
# Applying a configuration

`Deploy.apply` generates the restore script and the ipset script of a
configuration and loads them: the ip sets first, atomically over the live
sets, and after clearing everything when that fails; then the two packet
filter rulesets.  This module follows it on the in-memory kernel.

**Loading ip sets.**  `loadSets_run` gives the load of an ipset script: the
atomic update is built, then loaded.  Loading keeps the world sound whatever
happens (`keepsSound_loadSets`, `keepsSound_clear`), and a load of a block
script that succeeds leaves exactly the blocks' sets (`loadSets_ok`), over
any valid kernel.

**Results.**
* `loadAll_ok`: when the three loads succeed, by the atomic update or after
  clearing, the kernel holds the two packet filter scripts and exactly the
  blocks' sets.
* `apply_leaves_configured_rulesets`: when applying a configuration whose
  ipset script is block-shaped returns normally, the kernel holds its
  restore script and exactly the sets its ipset script describes.
-/

namespace Firewall
namespace Deploy

open Ipset IpSet

variable {cfg : Config} {w w' : World} {k : Kernel} {bs : List Block}

theorem loadSets_run (hk : w.host = .memory k) (script : List String) :
    Act.run (loadSets cfg script) w =
      match Drawing.run (swapScript k.setNames script) w.words with
      | (.ok out, words) => Act.run (Host.load cfg.commands .ipsets out) { w with words := words }
      | (.error f, words) => (.error f, { w with words := words }) := by
  unfold loadSets
  rw [Act.run_bind, Host.setNames_run_memory hk]
  dsimp only
  rw [Act.run_bind, Act.run_get]
  dsimp only
  rcases Drawing.run (swapScript k.setNames script) w.words with ⟨_ | out, words⟩ <;>
    simp only [Act.run_bind, Act.run_modify, Act.run_lift_ok, Act.run_lift_error]

theorem keepsSound_loadSets (script : List String) : (loadSets cfg script).KeepsSound := by
  rintro w ⟨k, hk, hv, hp⟩
  rw [loadSets_run hk]
  have hp' := @swapScript_plain k.setNames script w.words hp
  rcases hd : Drawing.run (swapScript k.setNames script) w.words with ⟨_ | out, words⟩ <;>
    rw [hd] at hp'
  · exact ⟨k, hk, hv, hp'⟩
  · exact Host.keepsSound_load _ _ _ _ ⟨k, hk, hv, hp'⟩

theorem keepsSound_clear : (clear cfg).KeepsSound := by
  unfold clear
  exact (Act.keepsSound_log _ _).bind fun _ => (Host.keepsSound_load _ _ _).bind fun _ =>
    (Act.keepsSound_log _ _).bind fun _ => (Host.keepsSound_load _ _ _).bind fun _ =>
    (Act.keepsSound_log _ _).bind fun _ => Host.keepsSound_load _ _ _

theorem keepsSound_loadAll (ipt ip6 ipsets : List String) :
    (loadAll cfg ipt ip6 ipsets).KeepsSound := by
  unfold loadAll
  refine (Act.KeepsSound.tryCatch (keepsSound_loadSets ipsets) fun f => ?_).bind fun _ =>
    (Host.keepsSound_load _ _ _).bind fun _ => Host.keepsSound_load _ _ _
  cases f
  case rulesetFailed msg =>
    exact (Act.keepsSound_log _ _).bind fun _ => (Act.keepsSound_log _ _).bind fun _ =>
      keepsSound_clear.bind fun _ => keepsSound_loadSets ipsets
  all_goals exact Act.keepsSound_throw _

/-- Applying a configuration keeps the world sound, whatever its outcome. -/
theorem keepsSound_apply : (apply cfg).KeepsSound := by
  unfold apply
  refine (Act.keepsSound_lift _).bind fun rules => (Act.keepsSound_log _ _).bind fun _ =>
    (Act.keepsSound_lift _).bind fun listing => (Act.keepsSound_forIn _ (fun _ _ =>
      (Act.keepsSound_print _).bind fun _ => Act.keepsSound_pure _) _ _).bind fun _ =>
    keepsSound_loadAll _ _ _

/-- A load of a block script that succeeds on a sound world leaves exactly
the blocks' sets, whatever sets were live. -/
theorem loadSets_ok (hwf : ∀ b ∈ bs, b.Wf) (hnd : (bs.map (·.name)).Nodup) (hw : w.Sound)
    (h : Act.run (loadSets cfg (script bs)) w = (.ok (), w')) :
    ∃ k', w'.host = .memory k' ∧ k'.sets.Perm (bs.map Block.set) := by
  obtain ⟨k, hk, hv, hp⟩ := hw
  rw [loadSets_run hk] at h
  rcases hd : Drawing.run (swapScript k.setNames (script bs)) w.words with ⟨_ | out, words⟩ <;>
    rw [hd] at h
  · cases h
  · dsimp only at h
    obtain ⟨k', hl, hk', -⟩ := Host.load_ok (show ({ w with words := words } : World).host = .memory k
      from hk) h
    refine ⟨k', hk', ?_⟩
    obtain ⟨-, t, ht, rfl⟩ := Kernel.load_ipsets_eq_ok_iff.mp hl
    have hone := swapScript_oneLine (fun n hn => by
      obtain ⟨s, hs, rfl⟩ := List.mem_map.mp hn
      exact hv.2 s hs) hwf hnd hp hd
    rw [Kernel.runAll_lines_scriptText _ hone] at ht
    exact runAll_swapScript_perm hv hwf hnd hp hd ht

/-- Two packet filter loads that succeed leave their scripts and keep the
sets. -/
theorem loadTables_ok {w1 : World} {k1 : Kernel} (hk : w1.host = .memory k1)
    {ipt ip6 : List String}
    (h : Act.run (Host.load cfg.commands .iptables ipt >>= fun _ =>
      Host.load cfg.commands .ip6tables ip6) w1 = (.ok (), w')) :
    ∃ k', w'.host = .memory k' ∧ k'.iptables = Text.lines (Kernel.scriptText ipt) ∧
      k'.ip6tables = Text.lines (Kernel.scriptText ip6) ∧ k'.sets = k1.sets := by
  obtain ⟨_, w2, h4, h6⟩ := Act.run_bind_ok h
  obtain ⟨k2, hl4, hk2, -⟩ := Host.load_ok hk h4
  obtain ⟨k3, hl6, hk3, -⟩ := Host.load_ok hk2 h6
  obtain ⟨-, rfl⟩ := Kernel.load_iptables_eq_ok_iff.mp hl4
  obtain ⟨-, rfl⟩ := Kernel.load_ip6tables_eq_ok_iff.mp hl6
  exact ⟨_, hk3, rfl, rfl, rfl⟩

/-- When the three loads succeed, by the atomic update or after clearing, the
kernel holds the two packet filter scripts and exactly the blocks' sets. -/
theorem loadAll_ok (hwf : ∀ b ∈ bs, b.Wf) (hnd : (bs.map (·.name)).Nodup) {ipt ip6 : List String}
    (hw : w.Sound) (h : Act.run (loadAll cfg ipt ip6 (script bs)) w = (.ok (), w')) :
    ∃ k', w'.host = .memory k' ∧ k'.iptables = Text.lines (Kernel.scriptText ipt) ∧
      k'.ip6tables = Text.lines (Kernel.scriptText ip6) ∧ k'.sets.Perm (bs.map Block.set) := by
  unfold loadAll at h
  obtain ⟨_, w1, hsets, htables⟩ := Act.run_bind_ok h
  have hk1 : ∃ k1, w1.host = .memory k1 ∧ k1.sets.Perm (bs.map Block.set) := by
    rw [Act.run_tryCatch] at hsets
    rcases hl : Act.run (loadSets cfg (script bs)) w with ⟨f | u, wf⟩ <;> rw [hl] at hsets
    · -- the atomic update failed: a refused load is retried after clearing
      have hwf' : wf.Sound := (keepsSound_loadSets (script bs)).run hw hl
      cases f
      case rulesetFailed msg =>
        obtain ⟨_, w2, h1, h2⟩ := Act.run_bind_ok hsets
        obtain ⟨_, w3, h3, h4⟩ := Act.run_bind_ok h2
        obtain ⟨_, w4, h5, h6⟩ := Act.run_bind_ok h4
        have hw2 := (Act.keepsSound_log _ _).run hwf' h1
        have hw3 := (Act.keepsSound_log _ _).run hw2 h3
        exact loadSets_ok hwf hnd (keepsSound_clear.run hw3 h5) h6
      all_goals simp at hsets
    · cases hsets
      exact loadSets_ok hwf hnd hw hl
  obtain ⟨k1, hk1, hperm⟩ := hk1
  obtain ⟨k', hk', hipt, hip6, hs⟩ := loadTables_ok hk1 htables
  exact ⟨k', hk', hipt, hip6, hs ▸ hperm⟩

/-- When applying a configuration returns normally, the kernel holds its
restore script in both packet filters and, when its ipset script introduces
each set by a `create` line followed by its `add` lines, exactly the sets
that script describes: whether the atomic update of the live sets succeeded
or the firewall was cleared first. -/
theorem apply_leaves_configured_rulesets {listing : Ipset.Listing}
    (hlist : Ipset.listing cfg.tree = .ok listing) (hbs : listing.lines = script bs)
    (hwf : ∀ b ∈ bs, b.Wf) (hnd : (bs.map (·.name)).Nodup) (hw : w.Sound)
    (h : Act.run (apply cfg) w = (.ok (), w')) :
    ∃ rules k', Restore.ofConfig cfg.tree = .ok rules ∧ w'.host = .memory k' ∧
      k'.iptables = Text.lines (Kernel.scriptText rules) ∧
      k'.ip6tables = Text.lines (Kernel.scriptText rules) ∧ k'.sets.Perm (bs.map Block.set) := by
  unfold apply at h
  cases hr : Restore.ofConfig cfg.tree with
  | error f =>
      rw [hr, Act.run_bind, Act.run_lift_error] at h
      cases h
  | ok rules =>
      rw [hr] at h
      obtain ⟨rules', w1, h1, h2⟩ := Act.run_bind_ok h
      obtain ⟨_, w2, h3, h4⟩ := Act.run_bind_ok h2
      obtain ⟨listing', w3, h5, h6⟩ := Act.run_bind_ok h4
      obtain ⟨_, w4, h7, h8⟩ := Act.run_bind_ok h6
      simp only [Act.run_lift_ok, Prod.mk.injEq, Except.ok.injEq] at h1
      rw [hlist] at h5
      simp only [Act.run_lift_ok, Prod.mk.injEq, Except.ok.injEq] at h5
      obtain ⟨rfl, rfl⟩ := h1
      obtain ⟨rfl, rfl⟩ := h5
      have hw2 := (Act.keepsSound_log _ _).run hw h3
      have hw4 := (Act.keepsSound_forIn _ (fun _ _ =>
        (Act.keepsSound_print _).bind fun _ => Act.keepsSound_pure _) _ _).run hw2 h7
      rw [hbs] at h8
      obtain ⟨k', hk', hipt, hip6, hperm⟩ := loadAll_ok hwf hnd hw4 h8
      exact ⟨rules, k', rfl, hk', hipt, hip6, hperm⟩

/-- The built-in commands. -/
def plainCommands : Commands :=
  ⟨.str "iptables-save", .str "iptables-restore", .str "ip6tables-save", .str "ip6tables-restore",
    .str "ipset"⟩

/-- A configuration of one set `s` holding one address, without rules. -/
def oneSet : Config :=
  ⟨.dict [(.str "ipsets", .dict [
      (.str "s", .dict [(.str "type", .str "hash:ip"), (.str "entries", .list [.str "1.2.3.4"])])])],
    plainCommands, ⟨"iptables", "ip6tables", "ipsets"⟩, "archive"⟩

/-- A world whose in-memory kernel holds an empty set `s` and no rules. -/
def liveS : World :=
  ⟨.memory ⟨[], [], [⟨"s", "hash:ip", []⟩], []⟩, default, Words.ofList [], [], [], "", []⟩

/-- Object references are expanded in the `add` lines of a set but not in its
name, so the ipset script of this configuration adds to `s` again after
creating `s.aab` and `s${x}`. -/
def splitSet : Config :=
  ⟨.dict [
      (.str "objects", .dict [(.str "x", .str "")]),
      (.str "ipsets", .dict [
        (.str "s", .dict [(.str "type", .str "hash:ip"), (.str "entries", .list [.str "1.2.3.4"])]),
        (.str "s.aab", .dict [(.str "type", .str "hash:ip"), (.str "entries", .list [])]),
        (.str "s${x}", .dict [(.str "type", .str "hash:ip"),
          (.str "entries", .list [.str "5.6.7.8"])])])],
    plainCommands, ⟨"iptables", "ip6tables", "ipsets"⟩, "archive"⟩

/-- Over a live `s`, the update draws a second temporary `s.aab` for the late
`add` line: applying `splitSet` returns normally but leaves `s` with the late
address only, keeps the first temporary `s.aaa`, and loses `s.aab`. -/
theorem apply_splitSet_loses_sets :
    (Ipset.listing splitSet.tree).map (·.lines) =
        .ok ["create s hash:ip", "add s 1.2.3.4", "create s.aab hash:ip", "create s${x} hash:ip",
          "add s 5.6.7.8"] ∧
      (runAll [] ["create s hash:ip", "add s 1.2.3.4", "create s.aab hash:ip",
          "create s${x} hash:ip", "add s 5.6.7.8"]).map (·.flatMap IpSet.listing) =
        some ["create s hash:ip", "add s 1.2.3.4", "add s 5.6.7.8", "create s.aab hash:ip",
          "create s${x} hash:ip"] ∧
      (Act.run (do apply splitSet; Host.running splitSet.commands .ipsets) liveS).1 =
        .ok ["create s hash:ip", "add s 5.6.7.8", "create s.aaa hash:ip", "add s.aaa 1.2.3.4",
          "create s${x} hash:ip"] := by
  decide +kernel

end Deploy
end Firewall
