import Firewall.Proofs.Restore.Rules

/-!
# Zone chains in the sections of a restore script

A table's section of the restore script expands, in order, the policies of the
built-in chains, the helper chains, the rule lists `pre_default`, `default` and
`pre_zone`, and last the zone lines (`script_sections`).  The zone lines on
their own declare their chains once and before use
(`zone_chains_declared_in_order`).  This module carries that to the whole
section.

**Input.**  A keyed configuration (`Keyed`) whose restore script is built.

**Results.**
* `configLines_split`: the lines of a configuration are its zone lines after
  lines that jump nowhere: policies, helper chain declarations and rules.
* `expand_plain`: a text with neither `$` nor `%` expands to itself; so does
  the declaration of every zone chain, whose name is made of zone names and
  built-in chain names (`zone_declaration_expands_to_itself`).
* `zone_chains_declared_once_before_use`: in every table the zone lines
  declare each zone chain once and before use; and when no other line of the
  table names a zone chain, the same holds of the whole section, which keeps
  each declaration as it is, and jumps between zone chains form no loop.  A
  helper chain with a zone chain's name is declared twice
  (`helperOverZone_declares_twice`).
-/

namespace Firewall
namespace Restore

open Rule Zone

section Plain

/-- A text that holds no sigil of a reference. -/
def Plain (s : String) : Prop := '$' ∉ s.toList ∧ '%' ∉ s.toList

instance : DecidablePred Plain := fun _ => inferInstanceAs (Decidable (_ ∧ _))

theorem Plain.append {a b : String} (ha : Plain a) (hb : Plain b) : Plain (a ++ b) := by
  simp only [Plain, String.toList_append, List.mem_append, not_or] at ha hb ⊢
  exact ⟨⟨ha.1, hb.1⟩, ha.2, hb.2⟩

theorem ZoneName.plain {m : String} (h : ZoneName m) : Plain m := by
  rcases h with rfl | rfl | ⟨i, rfl⟩
  · decide
  · decide
  · exact Plain.append (by decide) ⟨not_mem_digits (by decide) i, not_mem_digits (by decide) i⟩

theorem ZoneRest.plain {s : String} (h : ZoneRest s) : Plain s := by
  rcases h with hs | rfl | ⟨m, rfl, hm⟩
  · have hentry : ∀ s ∈ entryChains, Plain s := by decide
    exact hentry s hs
  · decide
  · exact Plain.append (by decide) (ZoneName.plain hm)

/-- A text with no sigil has no reference to expand: it expands to itself. -/
theorem expand_plain (tree : Value) {s : String} (h : Plain s) :
    expand tree (.str s) = Run.ofList [s] := by
  have hobj : Reference.find? '$' s = none := find?_eq_none_of_not_mem '$' s h.1
  have hzone : Reference.find? '%' s = none := find?_eq_none_of_not_mem '%' s h.2
  -- each expansion stops at its first level, out of `depthLimit`
  have hfuel : depthLimit = 999 + 1 := rfl
  have hobjects : expandObjectsWith tree depthLimit .iptables s = Run.ofList [s] := by
    rw [hfuel, expandObjectsWith, hobj]
  have hzones : expandZonesWith tree depthLimit s = Run.ofList [s] := by
    rw [hfuel, expandZonesWith, hzone]
  simp [expand, expandObjects, hobjects, hzones, Run.bind, Run.feed, Run.ofList]

variable {tree : Value} {zs : List TableLine}

/-- The zone lines declare chains whose declarations expand to themselves. -/
theorem zone_declaration_expands_to_itself (hk : Keyed tree) (h : allLines tree = .ok zs)
    (table : String) :
    ∀ c ∈ declarations (inTable zs table),
      expand tree (.str (":" ++ c ++ " -")) = Run.ofList [":" ++ c ++ " -"] := by
  intro c hc
  obtain ⟨n, s, rfl, hn, hs⟩ := allLines_named hk h table c hc
  refine expand_plain tree (Plain.append (Plain.append (by decide) ?_) (by decide))
  exact Plain.append (Plain.append (ZoneName.plain hn) (by decide)) (ZoneRest.plain hs)

end Plain

section Split

variable {tree v : Value} {ls : List TableLine}

theorem policyLines_jump_free (h : policyLines tree = .ok ls) : ∀ l ∈ ls, l.2.jumps = false := by
  intro l hl
  obtain ⟨x, -, zs, hzs, hl⟩ := mem_of_flatMapM_ok h hl
  obtain ⟨chain, -, hl⟩ := mem_of_mapM_ok hzs l hl
  obtain ⟨verdict, -, hl⟩ := except_bind_eq_ok.mp hl
  cases hl
  rfl

theorem listLines_jump_free (h : listLines v = .ok ls) : ∀ l ∈ ls, l.2.jumps = false := by
  intro l hl
  unfold listLines at h
  obtain ⟨tables, -, h⟩ := except_bind_eq_ok.mp h
  obtain ⟨⟨table, chains⟩, -, zs, hzs, hl⟩ := mem_of_flatMapM_ok h hl
  obtain ⟨ces, -, hzs⟩ := except_bind_eq_ok.mp hzs
  obtain ⟨⟨chain, rules⟩, -, ws, hws, hl⟩ := mem_of_flatMapM_ok hzs hl
  obtain ⟨ms, -, hws⟩ := except_bind_eq_ok.mp hws
  cases hws
  obtain ⟨r, -, rfl⟩ := List.mem_map.mp hl
  rfl

theorem helperLines_jump_free (h : helperLines tree = .ok ls) : ∀ l ∈ ls, l.2.jumps = false := by
  unfold helperLines at h
  obtain ⟨tables, -, h⟩ := except_bind_eq_ok.mp h
  obtain ⟨declared, hdecl, h⟩ := except_bind_eq_ok.mp h
  obtain ⟨listed, hlisted, h⟩ := except_bind_eq_ok.mp h
  cases h
  intro l hl
  rcases List.mem_append.mp hl with hl | hl
  · -- a declaration
    obtain ⟨x, -, zs, hzs, hl⟩ := mem_of_flatMapM_ok hdecl hl
    obtain ⟨ms, -, hzs⟩ := except_bind_eq_ok.mp hzs
    obtain ⟨c, -, hl⟩ := mem_of_mapM_ok hzs l hl
    obtain ⟨name, -, hl⟩ := except_bind_eq_ok.mp hl
    cases hl
    rfl
  · exact listLines_jump_free hlisted l hl

/-- The lines of a configuration are its zone lines after lines that jump
nowhere: the policies, the helper chains and the rule lists. -/
theorem configLines_split (h : configLines tree = .ok ls) :
    ∃ others zs, ls = others ++ zs ∧ allLines tree = .ok zs ∧ ∀ l ∈ others, l.2.jumps = false := by
  unfold configLines at h
  obtain ⟨ps, hps, h⟩ := except_bind_eq_ok.mp h
  obtain ⟨hs, hhs, h⟩ := except_bind_eq_ok.mp h
  obtain ⟨pdv, -, h⟩ := except_bind_eq_ok.mp h
  obtain ⟨pd, hpd, h⟩ := except_bind_eq_ok.mp h
  obtain ⟨dv, -, h⟩ := except_bind_eq_ok.mp h
  obtain ⟨d, hd, h⟩ := except_bind_eq_ok.mp h
  obtain ⟨pzv, -, h⟩ := except_bind_eq_ok.mp h
  obtain ⟨pz, hpz, h⟩ := except_bind_eq_ok.mp h
  obtain ⟨zs, hzs, h⟩ := except_bind_eq_ok.mp h
  cases h
  refine ⟨ps ++ hs ++ pd ++ d ++ pz, zs, rfl, hzs, fun l hl => ?_⟩
  simp only [List.mem_append] at hl
  rcases hl with (((hl | hl) | hl) | hl) | hl
  · exact policyLines_jump_free hps l hl
  · exact helperLines_jump_free hhs l hl
  · exact listLines_jump_free hpd l hl
  · exact listLines_jump_free hd l hl
  · exact listLines_jump_free hpz l hl

/-- The lines of one table of lines that jump nowhere jump nowhere. -/
theorem inTable_jump_free {others : List TableLine} (h : ∀ l ∈ others, l.2.jumps = false)
    (table : String) : ∀ l ∈ inTable others table, l.jumps = false := by
  intro l hl
  obtain ⟨⟨t, l'⟩, hmem, hl'⟩ := List.mem_filterMap.mp hl
  cases ht : t == .str table <;> simp only [ht, Bool.false_eq_true, if_false, if_true,
    reduceCtorEq, Option.some.injEq] at hl'
  subst hl'
  exact h _ hmem

end Split

section Sections

variable {tree : Value}

/-- Zone chains are declared once and before use, in the zone lines and in the
restore script.  In every table, the zone lines declare each chain once; a
line that uses a chain they declare comes after its declaration; every chain
they use is declared or fixed; jumps between their chains form no loop.  The
restore script lists each table's section as the expansions of its lines, the
zone lines last, and the declaration of every zone chain expands to itself.
When no other line of a table (a policy, a helper chain or a rule list's rule)
names a zone chain, the whole section declares each zone chain once, uses it
only after its declaration, and jumps between zone chains form no loop. -/
theorem zone_chains_declared_once_before_use (hk : Keyed tree) :
    (∀ zs, allLines tree = .ok zs → ∀ table,
      ChainOrder (inTable zs table) ∧
        (∀ l ∈ inTable zs table, ∀ c ∈ l.uses,
          c ∈ declarations (inTable zs table) ∨ c ∈ fixedChains) ∧
        ∀ c, ¬ Relation.TransGen (DeclaredJump (inTable zs table)) c c) ∧
    ∀ script, ofConfig tree = .ok script →
      ∃ others zs, configLines tree = .ok (others ++ zs) ∧ allLines tree = .ok zs ∧
        script = tables.flatMap (fun t => ("*" ++ t) ::
          (inTable (others ++ zs) t).flatMap (fun l => (expand tree (.str l.text)).items) ++
            ["COMMIT"]) ∧
        ∀ table,
          (∀ c ∈ declarations (inTable zs table),
            expand tree (.str (":" ++ c ++ " -")) = Run.ofList [":" ++ c ++ " -"]) ∧
          ((∀ l ∈ inTable others table, l.chain ∉ declarations (inTable zs table)) →
            ChainsOrdered (declarations (inTable zs table)) (inTable (others ++ zs) table) ∧
              ∀ c, ¬ Relation.TransGen (JumpWithin (declarations (inTable zs table))
                (inTable (others ++ zs) table)) c c) := by
  refine ⟨fun zs h table => zone_chains_declared_in_order h hk table, fun script h => ?_⟩
  obtain ⟨ls, hls, hscript⟩ := script_sections h
  obtain ⟨others, zs, rfl, hzs, hjump⟩ := configLines_split hls
  refine ⟨others, zs, hls, hzs, hscript, fun table =>
    ⟨zone_declaration_expands_to_itself hk hzs table, fun hclash => ?_⟩⟩
  -- the other lines go in front of the zone lines, which are in chain order
  have hord := ((zone_chains_declared_in_order hzs hk table).1.ordered).prepend
    (inTable_jump_free hjump table) hclash
  rw [inTable_append]
  exact ⟨hord, hord.no_loop⟩

/-- A helper chain beside a zone: `filter`'s helper chain `log_drop`, and the
zone `lan` whose input rules jump to it. -/
def helperBesideZone : Value := .dict [
  (.str "helper_chains", .dict [(.str "filter", .dict [(.str "log_drop", .list [.str "-j DROP"])])]),
  (.str "zones", .dict [(.str "lan", .dict [(.str "interfaces", .list [.str "eth0"]),
    (.str "rules", .dict [(.str "filter", .dict [(.str "INPUT", .list [.str "-j log_drop"])])])])])]

/-- `helperBesideZone`'s filter section: the policies of `INPUT`, `FORWARD` and
`OUTPUT` and the helper chain's declaration and rule come before the zone
lines, which declare `zone0_INPUT`; the whole section keeps it in order. -/
theorem helperBesideZone_in_order :
    Keyed helperBesideZone ∧ ∃ script others zs, ofConfig helperBesideZone = .ok script ∧
      configLines helperBesideZone = .ok (others ++ zs) ∧
      declarations (inTable zs "filter") = ["zone0_INPUT"] ∧
      (inTable others "filter").map Line.chain =
        ["INPUT", "FORWARD", "OUTPUT", "log_drop", "log_drop"] ∧
      ChainsOrdered ["zone0_INPUT"] (inTable (others ++ zs) "filter") := by
  have hk : Keyed helperBesideZone := by decide +kernel
  obtain ⟨script, hs⟩ : ∃ script, ofConfig helperBesideZone = .ok script := by
    have hok : (ofConfig helperBesideZone).isOk = true := by decide +kernel
    cases h : ofConfig helperBesideZone with
    | error f =>
        rw [h] at hok
        cases hok
    | ok script => exact ⟨script, rfl⟩
  obtain ⟨others, zs, hcl, hzs, -, htable⟩ := (zone_chains_declared_once_before_use hk).2 script hs
  have hdecl : (allLines helperBesideZone).map (fun ls => declarations (inTable ls "filter")) =
      .ok ["zone0_INPUT"] := by
    decide +kernel
  rw [hzs] at hdecl
  -- the filter lines before the zone lines: the policies, then the helper chain
  have hother : (configLines helperBesideZone).bind (fun ls =>
      (allLines helperBesideZone).map fun zs => ((inTable ls "filter").take
        ((inTable ls "filter").length - (inTable zs "filter").length)).map Line.chain) =
      .ok ["INPUT", "FORWARD", "OUTPUT", "log_drop", "log_drop"] := by
    decide +kernel
  rw [hcl, hzs] at hother
  simp only [Except.bind, Except.map, inTable_append, List.length_append, Nat.add_sub_cancel,
    List.take_left', Except.ok.injEq] at hother
  have hzone : declarations (inTable zs "filter") = ["zone0_INPUT"] := Except.ok.inj hdecl
  have hclash : ∀ l ∈ inTable others "filter", l.chain ∉ declarations (inTable zs "filter") := by
    intro l hl
    have hc : l.chain ∈ (inTable others "filter").map Line.chain := List.mem_map_of_mem hl
    rw [hother] at hc
    rw [hzone]
    simp only [List.mem_cons, List.not_mem_nil, or_false] at hc
    rcases hc with hc | hc | hc | hc | hc <;> rw [hc] <;> decide
  have hord := ((htable "filter").2 hclash).1
  rw [hzone] at hord
  exact ⟨hk, script, others, zs, hs, hcl, hzone, hother, hord⟩

/-- A helper chain with the name of a zone chain: `filter`'s helper chain
`zone0_INPUT` is also the chain of the zone `lan` for `INPUT`. -/
def helperOverZone : Value := .dict [
  (.str "helper_chains", .dict [(.str "filter", .dict [(.str "zone0_INPUT", .list [])])]),
  (.str "zones", .dict [(.str "lan", .dict [(.str "interfaces", .list [.str "eth0"]),
    (.str "rules", .dict [(.str "filter", .dict [(.str "INPUT", .list [.str "-j ACCEPT"])])])])])]

/-- The zone lines alone are in chain order, but the restore script's filter
section declares `zone0_INPUT` twice: once as a helper chain, once for the
zone. -/
theorem helperOverZone_declares_twice :
    Keyed helperOverZone ∧ (ofConfig helperOverZone).map (List.take 9) =
      .ok ["*filter", ":INPUT ACCEPT", ":FORWARD ACCEPT", ":OUTPUT ACCEPT", ":zone0_INPUT -",
        ":zone0_INPUT -", "-A INPUT -i eth0 -j zone0_INPUT", "-A zone0_INPUT -j ACCEPT",
        "COMMIT"] :=
  ⟨by decide +kernel, by decide +kernel⟩

end Sections

end Restore
end Firewall
