import Firewall.Rule.Chains
import Firewall.Proofs.Zone.Basic

/-!
# Dispatch into zone chains

The zone rules enter each zone's chains by jumps, from the built-in chains and
from the zone's own chains.  `Dispatch` lists the jumps they may produce, each
with its guard: a jump from a built-in chain into a chain of an ordinary zone
is guarded by that zone's interfaces, inbound for `PREROUTING`, `INPUT` and
`FORWARD`, outbound for `OUTPUT` and `POSTROUTING`; a jump into the chain of a
destination is guarded by the destination's interfaces, outbound; and only the
jumps into a zone's own chains for the host and for the default destination,
and the local zone's jump into its default chain, are unguarded.

**Shapes.**  One lemma per generator says which jumps it gives:
`destination_jump`, `defaultChain_jump`, `destinations_jump`, `forward_jump`.

**Results.**
* `allLines_jump_dispatch`: every jump of the zone rules is a `Dispatch`.
* `reaches_to_chain`: a packet that reaches the chain of zone `n` for
  destination `m` (`Reaches`, from the built-in chains along jumps whose
  guards it passes) passed the inbound guard of a zone named `n` and the
  outbound guard of a zone named `m`.
* `zone_dispatch_isolated`: both together.
-/

namespace Firewall
namespace Zone

open Rule

/-- The jumps that the zone rules of `tree` may produce: from a chain, with a
guard, into a target. -/
inductive Dispatch (tree : Value) : String → Option Guard → String → Prop where
  /-- A built-in chain enters a zone's chain for packets arriving through the
  zone. -/
  | arrive {zone : Value} {n c : String} : name tree zone = .ok n → zone ≠ .str localZone →
      c = "PREROUTING" ∨ c = "INPUT" ∨ c = "FORWARD" →
      Dispatch tree c (some (.inbound zone.text)) (n ++ "_" ++ c)
  /-- A built-in chain enters a zone's chain for packets leaving through the
  zone. -/
  | leave {zone : Value} {n c : String} : name tree zone = .ok n → zone ≠ .str localZone →
      c = "OUTPUT" ∨ c = "POSTROUTING" →
      Dispatch tree c (some (.outbound zone.text)) (n ++ "_" ++ c)
  /-- A zone's forward chain accepts packets that leave through the zone again. -/
  | intra {zone : Value} {n : String} : name tree zone = .ok n → zone ≠ .str localZone →
      Dispatch tree (n ++ "_FORWARD") (some (.outbound zone.text)) "ACCEPT"
  /-- A zone's forward chain enters its chain for a destination, for packets
  leaving through the destination. -/
  | toZone {zone dest : Value} {n m : String} : name tree zone = .ok n → zone ≠ .str localZone →
      name tree dest = .ok m → dest ≠ .str localZone → dest ≠ .str defaultZone →
      Dispatch tree (n ++ "_FORWARD") (some (.outbound dest.text)) (n ++ "_to_" ++ m)
  /-- A zone's input chain enters its chain for the host. -/
  | toLocal {zone : Value} {n : String} : name tree zone = .ok n → zone ≠ .str localZone →
      Dispatch tree (n ++ "_INPUT") none (n ++ "_to_" ++ localZone)
  /-- A zone's input and forward chains enter its chain for the default
  destination. -/
  | toDefault {zone : Value} {n c : String} : name tree zone = .ok n → zone ≠ .str localZone →
      c = n ++ "_INPUT" ∨ c = n ++ "_FORWARD" → Dispatch tree c none (n ++ "_" ++ defaultZone)
  /-- `OUTPUT` enters the local zone's chain for a destination, for packets
  leaving through the destination. -/
  | localTo {dest : Value} {m : String} : name tree dest = .ok m → dest ≠ .str defaultZone →
      Dispatch tree "OUTPUT" (some (.outbound dest.text)) (localZone ++ "_to_" ++ m)
  /-- `OUTPUT` enters the local zone's chain for the default destination. -/
  | localDefault : Dispatch tree "OUTPUT" none (localZone ++ "_" ++ defaultZone)

section Shapes

variable {tree zone : Value} {c t : String} {g : Option Guard} {cm : Option String}
  {ls : List Line}

/-- The jump of a destination's chain: from the host's chain, unguarded, for
the local destination when there is one; otherwise from `target`, guarded by
the destination's interfaces. -/
theorem destination_jump {zn target : String} {tl : Option String} {dest rules : Value}
    (h : destination tree zone zn target tl dest rules = .ok ls) (hj : Line.jump c g cm t ∈ ls) :
    ∃ m, name tree dest = .ok m ∧ dest ≠ .str defaultZone ∧ t = zn ++ "_to_" ++ m ∧
      ((dest = .str localZone ∧ tl = some c ∧ g = none) ∨
        (c = target ∧ g = some (.outbound dest.text) ∧ (dest = .str localZone → tl = none))) := by
  rcases destination_cases h with rfl | ⟨m, hm, hdd, entry, ap, hap, rfl, hentry⟩
  · cases hj
  rcases List.mem_append.mp hj with hj | hj
  · refine ⟨m, hm, hdd, ?_⟩
    rcases hentry with ⟨hl, c', rfl, rfl⟩ | ⟨hl, rfl⟩
    · -- the host: entered from its chain, unguarded
      simp only [List.mem_cons, reduceCtorEq, Line.jump.injEq, List.not_mem_nil, or_false,
        false_or] at hj
      obtain ⟨rfl, rfl, -, rfl⟩ := hj
      exact ⟨rfl, .inl ⟨hl, rfl, rfl⟩⟩
    · simp only [outbound, List.mem_cons, reduceCtorEq, Line.jump.injEq, List.not_mem_nil,
        or_false, false_or] at hj
      obtain ⟨rfl, rfl, -, rfl⟩ := hj
      exact ⟨rfl, .inr ⟨rfl, rfl, hl⟩⟩
  · obtain ⟨r, hr⟩ := appendAll_ok hap _ hj
    cases hr

/-- The jumps of the default destination's chain: from `target` and from the
host's chain, unguarded. -/
theorem defaultChain_jump {zn target : String} {tl : Option String} {rules : Value}
    (h : defaultChain zn target tl rules = .ok ls) (hj : Line.jump c g cm t ∈ ls) :
    t = zn ++ "_" ++ defaultZone ∧ g = none ∧ (c = target ∨ tl = some c) := by
  obtain ⟨ap, hap, rfl⟩ := defaultChain_cases h
  rcases List.mem_append.mp hj with hj | hj
  · simp only [List.cons_append, List.nil_append, List.mem_cons, reduceCtorEq, Line.jump.injEq,
      List.mem_map, Option.mem_toList, false_or] at hj
    rcases hj with ⟨rfl, rfl, -, rfl⟩ | ⟨c', rfl, rfl, rfl, -, rfl⟩
    · exact ⟨rfl, rfl, .inl rfl⟩
    · exact ⟨rfl, rfl, .inr rfl⟩
  · obtain ⟨r, hr⟩ := appendAll_ok hap _ hj
    cases hr

/-- The jumps of a zone's `to` rules: those of its destinations' chains and of
its default chain. -/
theorem destinations_jump {n target : String} {tl : Option String} {toZones : Value}
    (h : destinations tree zone target tl toZones = .ok ls) (hn : name tree zone = .ok n)
    (hj : Line.jump c g cm t ∈ ls) :
    (∃ dest m, name tree dest = .ok m ∧ dest ≠ .str defaultZone ∧ t = n ++ "_to_" ++ m ∧
      ((dest = .str localZone ∧ tl = some c ∧ g = none) ∨
        (c = target ∧ g = some (.outbound dest.text) ∧ (dest = .str localZone → tl = none)))) ∨
    (t = n ++ "_" ++ defaultZone ∧ g = none ∧ (c = target ∨ tl = some c)) := by
  obtain ⟨entries, -, listed, hlisted, hdl⟩ := destinations_cases h hn
  -- the jump is listed for a destination, or belongs to the default chain
  have hmem : Line.jump c g cm t ∈ listed ∨
      ∃ rules dc, defaultChain n target tl rules = .ok dc ∧ Line.jump c g cm t ∈ dc := by
    rcases hdl with rfl | ⟨rules, dc, hdc, rfl⟩
    · exact .inl hj
    · exact (List.mem_append.mp hj).imp id fun hj => ⟨rules, dc, hdc, hj⟩
  rcases hmem with hj | ⟨rules, dc, hdc, hj⟩
  · obtain ⟨⟨dest, rules⟩, -, zs, hzs, hj⟩ := mem_of_flatMapM_ok hlisted hj
    exact .inl ⟨dest, destination_jump hzs hj⟩
  · exact .inr (defaultChain_jump hdc hj)

/-- The jumps of a zone's forward chain: entering it from `FORWARD`, and
accepting what leaves through the zone again. -/
theorem forward_jump {target : String} {allowIntra : Bool}
    (hj : Line.jump c g cm t ∈ forward zone target allowIntra) :
    (c = "FORWARD" ∧ g = some (.inbound zone.text) ∧ t = target) ∨
      (c = target ∧ g = some (.outbound zone.text) ∧ t = "ACCEPT") := by
  cases allowIntra <;>
    simp only [forward, inbound, Bool.false_eq_true, if_false, if_true, List.append_nil,
      List.cons_append, List.nil_append, List.mem_cons, reduceCtorEq, Line.jump.injEq,
      List.not_mem_nil, or_false, false_or] at hj
  · obtain ⟨rfl, rfl, -, rfl⟩ := hj
    exact .inl ⟨rfl, rfl, rfl⟩
  · rcases hj with ⟨rfl, rfl, -, rfl⟩ | ⟨rfl, rfl, -, rfl⟩
    · exact .inl ⟨rfl, rfl, rfl⟩
    · exact .inr ⟨rfl, rfl, rfl⟩

end Shapes

section Dispatches

variable {tree zone : Value} {c t : String} {g : Option Guard} {cm : Option String}

theorem dispatch_forward {n target : String} {allowIntra : Bool} (hn : name tree zone = .ok n)
    (hz : zone ≠ .str localZone) (ht : target = n ++ "_FORWARD")
    (hj : Line.jump c g cm t ∈ forward zone target allowIntra) : Dispatch tree c g t := by
  rcases forward_jump hj with ⟨rfl, rfl, rfl⟩ | ⟨rfl, rfl, rfl⟩
  · rw [ht, append_underscore_forward]
    exact .arrive hn hz (by simp)
  · rw [ht]
    exact .intra hn hz

/-- The jumps of the entry lines of one chain of an ordinary zone are
dispatches. -/
theorem chainEntry_dispatch {n : String} {allowIntra : Bool} {chains chain items : Value}
    {ls : List Line} (h : chainEntry tree zone n allowIntra chains chain items = .ok ls)
    (hn : name tree zone = .ok n) (hz : zone ≠ .str localZone) (hj : Line.jump c g cm t ∈ ls) :
    Dispatch tree c g t := by
  rcases chainEntry_cases h with ⟨c', hc', -, rfl⟩ | ⟨-, rfl⟩ | ⟨-, -, dl, hdl, rfl⟩ |
      ⟨c', hc', -, rfl⟩
  · -- `PREROUTING` and `INPUT`: arriving through the zone
    simp only [inbound, List.mem_cons, reduceCtorEq, Line.jump.injEq, List.not_mem_nil,
      or_false, false_or] at hj
    obtain ⟨rfl, rfl, -, rfl⟩ := hj
    simp only [List.mem_cons, List.not_mem_nil, or_false] at hc'
    exact .arrive hn hz (hc'.imp_right .inl)
  · exact dispatch_forward hn hz (append_underscore_forward n).symm hj
  · -- `to`: the input and forward chains, then the destinations
    rcases List.mem_append.mp hj with hj | hj
    · rcases List.mem_append.mp hj with hj | hj
      · simp only [inbound, List.mem_cons, reduceCtorEq, Line.jump.injEq, List.not_mem_nil,
          or_false, false_or] at hj
        obtain ⟨rfl, rfl, -, rfl⟩ := hj
        rw [append_underscore_input]
        exact .arrive hn hz (by simp)
      · exact dispatch_forward hn hz rfl hj
    · rcases destinations_jump hdl hn hj with
        ⟨dest, m, hm, hdd, rfl, ⟨rfl, hc, rfl⟩ | ⟨rfl, rfl, hl⟩⟩ | ⟨rfl, rfl, hc⟩
      · cases hc
        rw [name_local] at hm
        cases hm
        exact .toLocal hn hz
      · have hdl : dest ≠ .str localZone := fun e => by simpa using hl e
        exact .toZone hn hz hm hdl hdd
      · rcases hc with rfl | hc
        · exact .toDefault hn hz (.inr rfl)
        · cases hc
          exact .toDefault hn hz (.inl rfl)
  · -- `OUTPUT` and `POSTROUTING`: leaving through the zone
    simp only [outbound, List.mem_cons, reduceCtorEq, Line.jump.injEq, List.not_mem_nil,
      or_false, false_or] at hj
    obtain ⟨rfl, rfl, -, rfl⟩ := hj
    simp only [List.mem_cons, List.not_mem_nil, or_false] at hc'
    exact .leave hn hz hc'

/-- The jumps of an ordinary zone's rules are dispatches. -/
theorem zoneLines_jump_dispatch {rules : Value} {allowIntra : Bool} {ls : List TableLine}
    {tb : Value} (h : zoneLines tree zone rules allowIntra = .ok ls) (hz : zone ≠ .str localZone)
    (hj : (tb, Line.jump c g cm t) ∈ ls) : Dispatch tree c g t := by
  unfold zoneLines at h
  obtain ⟨n, hn, h⟩ := except_bind_eq_ok.mp h
  obtain ⟨tables, -, h⟩ := except_bind_eq_ok.mp h
  obtain ⟨⟨table, chains⟩, -, zs, hzs, hj⟩ := mem_of_flatMapM_ok h hj
  obtain ⟨entries, -, hzs⟩ := except_bind_eq_ok.mp hzs
  obtain ⟨⟨chain, items⟩, -, ws, hws, hj⟩ := mem_of_flatMapM_ok hzs hj
  obtain ⟨entry, he, rfl⟩ := chainLines_ok hws
  obtain ⟨l, hl, hle⟩ := List.mem_map.mp hj
  cases hle
  rcases List.mem_append.mp hl with hl | hl
  · exact chainEntry_dispatch he hn hz hl
  · -- the rules are appended, not jumps
    obtain ⟨r, hr⟩ := appendedRules_append _ hl
    cases hr

/-- The jumps of the local zone's rules are dispatches from `OUTPUT`. -/
theorem localLines_jump_dispatch {rules : Value} {ls : List TableLine} {tb : Value}
    (h : localLines tree zone rules = .ok ls) (hz : zone = .str localZone)
    (hj : (tb, Line.jump c g cm t) ∈ ls) : Dispatch tree c g t := by
  subst hz
  unfold localLines at h
  obtain ⟨tables, -, h⟩ := except_bind_eq_ok.mp h
  obtain ⟨⟨table, chains⟩, -, zs, hzs, hj⟩ := mem_of_flatMapM_ok h hj
  obtain ⟨members, -, hzs⟩ := except_bind_eq_ok.mp hzs
  obtain ⟨chain, -, ws, hws, hj⟩ := mem_of_flatMapM_ok hzs hj
  obtain ⟨-, toZones, -, dl, hdl, rfl⟩ := localChainLines_ok hws
  obtain ⟨l, hl, hle⟩ := List.mem_map.mp hj
  cases hle
  rcases destinations_jump hdl (name_local tree) hl with
    ⟨dest, m, hm, hdd, rfl, ⟨-, hc, -⟩ | ⟨rfl, rfl, -⟩⟩ | ⟨rfl, rfl, hc⟩
  · cases hc
  · exact .localTo hm hdd
  · rcases hc with rfl | hc
    · exact .localDefault
    · cases hc

/-- Every jump of the zone rules is a dispatch: from a built-in chain guarded
by the zone entered, from a zone's own chain into its chain for a destination
guarded by the destination, or one of the unguarded jumps into the chains for
the host and for the default destination. -/
theorem allLines_jump_dispatch {ls : List TableLine} {tb : Value} (h : allLines tree = .ok ls)
    (hj : (tb, Line.jump c g cm t) ∈ ls) : Dispatch tree c g t := by
  unfold allLines at h
  obtain ⟨zones, -, h⟩ := except_bind_eq_ok.mp h
  obtain ⟨entries, -, h⟩ := except_bind_eq_ok.mp h
  obtain ⟨⟨zone, params⟩, -, zs, hzs, hj⟩ := mem_of_flatMapM_ok h hj
  obtain ⟨rules, -, ⟨hl, hzs⟩ | ⟨hl, allowIntra, hzs⟩⟩ := linesOf_ok hzs
  · exact localLines_jump_dispatch hzs hl hj
  · exact zoneLines_jump_dispatch hzs hl hj

end Dispatches

section Reach

/-- The chains of `table` that a packet reaches along the jumps of `ls` whose
guards it passes, starting from the built-in chains. -/
inductive Reaches (ls : List TableLine) (table : Value) (passes : Guard → Prop) : String → Prop where
  /-- A packet starts in a built-in chain. -/
  | builtin {c : String} : c ∈ builtinChains.flatMap (·.2) → Reaches ls table passes c
  /-- It follows a jump whose guard it passes. -/
  | jump {c target : String} {g : Option Guard} {cm : Option String} :
      Reaches ls table passes c → (table, .jump c g cm target) ∈ ls → (∀ x ∈ g, passes x) →
      Reaches ls table passes target

variable {tree : Value} {ls : List TableLine} {table : Value} {passes : Guard → Prop}

theorem underscore_not_mem_builtin {c : String} (h : c ∈ builtinChains.flatMap (·.2)) :
    '_' ∉ c.toList := by
  simp only [builtinChains, List.flatMap_cons, List.flatMap_nil, List.append_nil,
    List.cons_append, List.nil_append, List.mem_cons, List.not_mem_nil, or_false] at h
  rcases h with rfl | rfl | rfl | rfl | rfl | rfl | rfl | rfl | rfl | rfl | rfl | rfl | rfl |
    rfl | rfl | rfl | rfl <;> decide

/-- A chain of a zone is no built-in chain, so a packet reaches it by a jump. -/
theorem reaches_zone_chain {n s : String} (hr : Reaches ls table passes (n ++ "_" ++ s)) :
    ∃ c g cm, Reaches ls table passes c ∧ (table, .jump c g cm (n ++ "_" ++ s)) ∈ ls ∧
      ∀ x ∈ g, passes x := by
  generalize ht : n ++ "_" ++ s = t at hr
  cases hr with
  | builtin hb => exact absurd (ht ▸ underscore_mem_append n s) (underscore_not_mem_builtin hb)
  | jump hr hj hg => exact ⟨_, _, _, hr, hj, hg⟩

/-- A packet reaches a zone's forward chain only through the zone's
interfaces. -/
theorem reaches_forward (h : allLines tree = .ok ls) {n : String} (hn : '_' ∉ n.toList)
    (hr : Reaches ls table passes (n ++ "_FORWARD")) :
    ∃ zone, name tree zone = .ok n ∧ passes (.inbound zone.text) := by
  rw [append_underscore_forward] at hr
  obtain ⟨c, g, cm, -, hj, hg⟩ := reaches_zone_chain hr
  -- the jump into the forward chain is the one from `FORWARD`
  generalize ht : n ++ "_" ++ "FORWARD" = t at hj
  cases allLines_jump_dispatch h hj with
  | arrive hn' _ _ =>
      obtain ⟨rfl, rfl⟩ := append_underscore_inj hn (underscore_not_mem_name hn') ht
      exact ⟨_, hn', hg _ rfl⟩
  | leave hn' _ hc =>
      obtain ⟨rfl, rfl⟩ := append_underscore_inj hn (underscore_not_mem_name hn') ht
      simp at hc
  | intra => exact absurd (ht ▸ underscore_mem_append n _) (by decide)
  | toZone hn' =>
      rw [append_underscore_to] at ht
      obtain ⟨-, hs⟩ := append_underscore_inj hn (underscore_not_mem_name hn') ht
      have := congrArg (fun s : String => s.toList.head?) hs
      simp at this
  | toLocal hn' =>
      rw [append_underscore_to] at ht
      obtain ⟨-, hs⟩ := append_underscore_inj hn (underscore_not_mem_name hn') ht
      simp [localZone] at hs
  | toDefault hn' _ hc =>
      obtain ⟨-, hs⟩ := append_underscore_inj hn (underscore_not_mem_name hn') ht
      simp [defaultZone] at hs
  | localTo =>
      rw [append_underscore_to] at ht
      obtain ⟨-, hs⟩ := append_underscore_inj hn (by decide : '_' ∉ localZone.toList) ht
      have := congrArg (fun s : String => s.toList.head?) hs
      simp at this
  | localDefault =>
      obtain ⟨-, hs⟩ := append_underscore_inj hn (by decide : '_' ∉ localZone.toList) ht
      simp [defaultZone] at hs

/-- A packet reaches the chain of an ordinary zone for an ordinary destination
only when it came in through the zone's interfaces and leaves through the
destination's. -/
theorem reaches_to_chain (h : allLines tree = .ok ls) {zone dest : Value} {n m : String}
    (hn : name tree zone = .ok n) (hz : zone ≠ .str localZone) (hm : name tree dest = .ok m)
    (hd : dest ≠ .str localZone) (hr : Reaches ls table passes (n ++ "_to_" ++ m)) :
    (∃ zone', name tree zone' = .ok n ∧ passes (.inbound zone'.text)) ∧
      ∃ dest', name tree dest' = .ok m ∧ passes (.outbound dest'.text) := by
  have hnu := underscore_not_mem_name hn
  have hnl : n ≠ localZone := fun e => hz ((name_eq_local_iff hn).mp e)
  have hml : m ≠ localZone := fun e => hd ((name_eq_local_iff hm).mp e)
  rw [append_underscore_to] at hr
  obtain ⟨c, g, cm, hrc, hj, hg⟩ := reaches_zone_chain hr
  -- the jump into the chain is the one from the zone's forward chain
  generalize ht : n ++ "_" ++ ("to_" ++ m) = t at hj
  cases allLines_jump_dispatch h hj with
  | arrive hn' _ hc =>
      obtain ⟨-, rfl⟩ := append_underscore_inj hnu (underscore_not_mem_name hn') ht
      rcases hc with hc | hc | hc <;>
        · have := congrArg (fun s : String => s.toList.head?) hc
          simp at this
  | leave hn' _ hc =>
      obtain ⟨-, rfl⟩ := append_underscore_inj hnu (underscore_not_mem_name hn') ht
      rcases hc with hc | hc <;>
        · have := congrArg (fun s : String => s.toList.head?) hc
          simp at this
  | intra => exact absurd (ht ▸ underscore_mem_append n _) (by decide)
  | toZone hn' _ hm' =>
      rw [append_underscore_to] at ht
      obtain ⟨rfl, hs⟩ := append_underscore_inj hnu (underscore_not_mem_name hn') ht
      obtain rfl := (String.append_right_inj "to_").mp hs
      exact ⟨reaches_forward h hnu hrc, _, hm', hg _ rfl⟩
  | toLocal hn' =>
      rw [append_underscore_to] at ht
      obtain ⟨-, hs⟩ := append_underscore_inj hnu (underscore_not_mem_name hn') ht
      exact absurd ((String.append_right_inj "to_").mp hs) hml
  | toDefault hn' _ hc =>
      obtain ⟨-, hs⟩ := append_underscore_inj hnu (underscore_not_mem_name hn') ht
      have := congrArg (fun s : String => s.toList.head?) hs
      simp [defaultZone] at this
  | localTo =>
      rw [append_underscore_to] at ht
      obtain ⟨hs, -⟩ := append_underscore_inj hnu (by decide : '_' ∉ localZone.toList) ht
      exact absurd hs hnl
  | localDefault =>
      obtain ⟨hs, -⟩ := append_underscore_inj hnu (by decide : '_' ∉ localZone.toList) ht
      exact absurd hs hnl

end Reach

/-- Zone isolation of the zone rules: every jump they produce is a dispatch,
guarded by the interfaces of the zone it enters or leaves through unless it
enters a zone's own chain for the host or for the default destination; hence
a packet reaches the chain of an ordinary zone for an ordinary destination only
when it came in through the zone's interfaces and leaves through the
destination's. -/
theorem zone_dispatch_isolated {tree : Value} {ls : List TableLine} (h : allLines tree = .ok ls) :
    (∀ tb c g cm t, (tb, Line.jump c g cm t) ∈ ls → Dispatch tree c g t) ∧
      ∀ (table : Value) (passes : Guard → Prop) (zone dest : Value) (n m : String),
        name tree zone = .ok n → zone ≠ .str localZone → name tree dest = .ok m →
        dest ≠ .str localZone → Reaches ls table passes (n ++ "_to_" ++ m) →
        (∃ zone', name tree zone' = .ok n ∧ passes (.inbound zone'.text)) ∧
          ∃ dest', name tree dest' = .ok m ∧ passes (.outbound dest'.text) :=
  ⟨fun _ _ _ _ _ hj => allLines_jump_dispatch h hj,
    fun _ _ _ _ _ _ hn hz hm hd hr => reaches_to_chain h hn hz hm hd hr⟩

/-- Two zones: `lan`, with rules for traffic to `wan`, to the host and to
anywhere else, and `wan`. -/
def lanToWan : Value :=
  .dict [(.str "zones", .dict [
    (.str "lan", .dict [(.str "rules", .dict [(.str "filter", .dict [(.str "to", .dict [
      (.str "wan", .list [.str "-j ACCEPT"]), (.str "local", .list [.str "-j ACCEPT"]),
      (.str "default", .list [.str "-j DROP"])])])])]),
    (.str "wan", .dict [])])]

/-- The zone rules of `lanToWan` enter `lan`'s chains from `INPUT` and
`FORWARD` through `lan`, its chain for `wan` through `wan`, and its chains for
the host and the default destination unguarded; they are isolated. -/
theorem lanToWan_isolated :
    ∃ ls, allLines lanToWan = .ok ls ∧
      ls.map Prod.snd = [.declare "zone0_INPUT",
        .jump "INPUT" (some (.inbound "lan")) none "zone0_INPUT",
        .declare "zone0_FORWARD",
        .jump "FORWARD" (some (.inbound "lan")) none "zone0_FORWARD",
        .jump "zone0_FORWARD" (some (.outbound "lan")) (some "Intra-zone") "ACCEPT",
        .declare "zone0_to_zone1",
        .jump "zone0_FORWARD" (some (.outbound "wan")) (some "lan -> wan") "zone0_to_zone1",
        .append "zone0_to_zone1" "-j ACCEPT",
        .declare "zone0_to_local",
        .jump "zone0_INPUT" none (some "lan -> local") "zone0_to_local",
        .append "zone0_to_local" "-j ACCEPT",
        .declare "zone0_default",
        .jump "zone0_FORWARD" none none "zone0_default",
        .jump "zone0_INPUT" none none "zone0_default",
        .append "zone0_default" "-j DROP"] ∧
      ((∀ tb c g cm t, (tb, Line.jump c g cm t) ∈ ls → Dispatch lanToWan c g t) ∧
        ∀ (table : Value) (passes : Guard → Prop) (zone dest : Value) (n m : String),
          name lanToWan zone = .ok n → zone ≠ .str localZone → name lanToWan dest = .ok m →
          dest ≠ .str localZone → Reaches ls table passes (n ++ "_to_" ++ m) →
          (∃ zone', name lanToWan zone' = .ok n ∧ passes (.inbound zone'.text)) ∧
            ∃ dest', name lanToWan dest' = .ok m ∧ passes (.outbound dest'.text)) := by
  have hl : (allLines lanToWan).map (·.map Prod.snd) = .ok [.declare "zone0_INPUT",
      .jump "INPUT" (some (.inbound "lan")) none "zone0_INPUT",
      .declare "zone0_FORWARD",
      .jump "FORWARD" (some (.inbound "lan")) none "zone0_FORWARD",
      .jump "zone0_FORWARD" (some (.outbound "lan")) (some "Intra-zone") "ACCEPT",
      .declare "zone0_to_zone1",
      .jump "zone0_FORWARD" (some (.outbound "wan")) (some "lan -> wan") "zone0_to_zone1",
      .append "zone0_to_zone1" "-j ACCEPT",
      .declare "zone0_to_local",
      .jump "zone0_INPUT" none (some "lan -> local") "zone0_to_local",
      .append "zone0_to_local" "-j ACCEPT",
      .declare "zone0_default",
      .jump "zone0_FORWARD" none none "zone0_default",
      .jump "zone0_INPUT" none none "zone0_default",
      .append "zone0_default" "-j DROP"] := by
    decide +kernel
  -- the lines carry their tables, which are values: name them through the run
  cases h : allLines lanToWan with
  | error f =>
      rw [h] at hl
      cases hl
  | ok ls =>
      rw [h] at hl
      exact ⟨ls, rfl, Except.ok.inj hl, zone_dispatch_isolated h⟩

end Zone
end Firewall
