import Firewall.Restore.Script
import Firewall.Proofs.Zone.Keys
import Firewall.Proofs.Rule.Order

/-!
# Zone chains are declared once and before use

Every chain that the zone rules create is named by its zone's name and a rest
(`zone0_INPUT`, `zone0_to_zone1`, `zone0_default`).  In each table, the lines
of a keyed configuration's zones (`Keyed`) declare every such chain once,
append rules to it and jump to it only after its declaration, and jump between
such chains only from the one declared first; so those jumps form no loop
(`zone_chains_declared_in_order`).  The chains that the zone lines use without
declaring them are fixed: the built-in chains and the verdict `ACCEPT`.

The lines are built zone by zone, table by table, chain by chain and
destination by destination, and each level's lines are in chain order on their
own (`Piece`): no piece refers to a chain that an earlier one declares.
Pieces of one level declare chains apart, because their names differ:

* the chains of one zone are its name, `_` and a rest (`Named`), and zone
  names differ between zones of a keyed configuration;
* one zone's tables are different keys, and so are the chains of one table;
  the `to` rules, which declare the input and forward chains, are refused beside
  `INPUT`, `FORWARD` and `OUTPUT` rules (`EntryRest`);
* the destinations of `to` are different keys, whose names differ.
-/

namespace Firewall
namespace Zone

open Rule

section Pieces

/-- The chains that zone lines name without declaring them: the verdict
`ACCEPT` and the built-in chains. -/
def fixedChains : List String := "ACCEPT" :: builtinChains.flatMap (·.2)

/-- A chain that zone lines declare before they use it. -/
def Unfixed (c : String) : Prop := c ∉ fixedChains

theorem unfixed_joined (n s : String) : Unfixed (n ++ "_" ++ s) := by
  intro h
  -- no fixed chain has a `_` in its name
  have hfixed : ∀ c ∈ fixedChains, '_' ∉ c.toList := by decide
  exact hfixed _ h (underscore_mem_append n s)

theorem fixed_ne_joined {c : String} (hc : c ∈ fixedChains) (n s : String) :
    c ≠ n ++ "_" ++ s := by
  rintro rfl
  exact unfixed_joined n s hc

/-- Zone lines of one table in chain order on their own: they declare no chain
twice, and read after any declarations they use a chain that is not fixed only
once they have declared it. -/
structure Piece (ls : List Line) : Prop where
  nodup : (declarations ls).Nodup
  scope : ∀ D, Scoped Unfixed D ls

/-- Lines that declare only chains of the zone named `n`, with rests that `S`
allows. -/
def Named (n : String) (S : String → Prop) (ls : List Line) : Prop :=
  ∀ c ∈ declarations ls, ∃ s, c = n ++ "_" ++ s ∧ S s

variable {ls ls' : List Line} {n : String} {S S' : String → Prop}

theorem Piece.nil : Piece [] := ⟨List.nodup_nil, fun _ => trivial⟩

theorem Piece.append (h : Piece ls) (h' : Piece ls')
    (hd : ∀ c ∈ declarations ls, c ∉ declarations ls') : Piece (ls ++ ls') where
  nodup := by
    rw [declarations_append, List.nodup_append]
    exact ⟨h.nodup, h'.nodup, fun a ha b hb hab => hd a ha (hab ▸ hb)⟩
  scope D := scoped_append.mpr ⟨h.scope D, h'.scope _⟩

theorem declarations_eq_nil (h : ∀ l ∈ ls, l.declared? = none) : declarations ls = [] :=
  List.filterMap_eq_nil_iff.mpr h

theorem declarations_appends {t : String} (h : ∀ l ∈ ls, ∃ r, l = .append t r) :
    declarations ls = [] :=
  declarations_eq_nil fun l hl => by
    obtain ⟨r, rfl⟩ := h l hl
    rfl

theorem Named.nil : Named n S [] := fun _ h => nomatch h

theorem Named.append (h : Named n S ls) (h' : Named n S ls') : Named n S (ls ++ ls') := by
  intro c hc
  rw [declarations_append, List.mem_append] at hc
  exact hc.elim (h c) (h' c)

theorem Named.mono (h : Named n S ls) (hS : ∀ s, S s → S' s) : Named n S' ls := by
  intro c hc
  obtain ⟨s, hcs, hs⟩ := h c hc
  exact ⟨s, hcs, hS s hs⟩

theorem named_single {s : String} (hs : S s) (hd : declarations ls = [n ++ "_" ++ s]) :
    Named n S ls := by
  intro c hc
  rw [hd, List.mem_singleton] at hc
  exact ⟨s, hc, hs⟩

/-- Chains of one zone with rests that no rest is allowed both ways are apart. -/
theorem Named.disjoint (h : Named n S ls) (h' : Named n S' ls') (hS : ∀ s, S s → S' s → False) :
    ∀ c ∈ declarations ls, c ∉ declarations ls' := by
  intro c hc hc'
  obtain ⟨s, rfl, hs⟩ := h c hc
  obtain ⟨s', he, hs'⟩ := h' _ hc'
  rw [String.append_right_inj] at he
  exact hS s hs (he ▸ hs')

end Pieces

section Chains

variable {D : List String} {t : String} {js rs : List Line}

/-- A chain declared, entered by jumps from other chains that are declared if
not fixed, then given its rules. -/
theorem scoped_chain (ht : Unfixed t)
    (hjs : ∀ l ∈ js, ∃ c g cm, l = .jump c g cm t ∧ (Unfixed c → c ∈ D) ∧ c ≠ t)
    (hrs : ∀ l ∈ rs, ∃ r, l = .append t r) : Scoped Unfixed D (.declare t :: js ++ rs) :=
  scoped_append.mpr ⟨scoped_declare_jumps ht hjs,
    scoped_appends (fun _ => by simp [declarations_eq_nil fun l hl => by
      obtain ⟨c, g, cm, rfl, -⟩ := hjs l hl
      rfl]) hrs⟩

theorem declarations_chain
    (hjs : ∀ l ∈ js, ∃ c g cm, l = .jump c g cm t) (hrs : ∀ l ∈ rs, ∃ r, l = .append t r) :
    declarations (.declare t :: js ++ rs) = [t] := by
  have hj : declarations js = [] := declarations_eq_nil fun l hl => by
    obtain ⟨c, g, cm, rfl⟩ := hjs l hl
    rfl
  simp [hj, declarations_appends hrs]

/-- A chain entered from a fixed chain. -/
theorem piece_entered {c : String} {g : Option Guard} {cm : Option String} (hc : c ∈ fixedChains)
    (ht : Unfixed t) : Piece [.declare t, .jump c g cm t] where
  nodup := by simp
  scope _ := scoped_declare_jumps ht fun l hl => by
    obtain rfl := List.mem_singleton.mp hl
    exact ⟨c, g, cm, rfl, fun hu => absurd hc hu, fun e => ht (e ▸ hc)⟩

/-- Lines read after a piece, which use besides their own chains only chains
that the piece declares. -/
theorem Piece.then {ls : List Line} (h : Piece ls) (h' : (declarations js).Nodup)
    (hd : ∀ c ∈ declarations ls, c ∉ declarations js)
    (hs : ∀ D, (∀ c ∈ declarations ls, c ∈ D) → Scoped Unfixed D js) : Piece (ls ++ js) where
  nodup := by
    rw [declarations_append, List.nodup_append]
    exact ⟨h.nodup, h', fun a ha b hb hab => hd a ha (hab ▸ hb)⟩
  scope D := scoped_append.mpr
    ⟨h.scope D, hs _ fun _ hc => List.mem_append_left _ (List.mem_reverse.mpr hc)⟩

/-- Rules appended to a chain that a piece declares. -/
theorem Piece.append_rules {ls : List Line} (h : Piece ls) (ht : t ∈ declarations ls)
    (hrs : ∀ l ∈ rs, ∃ r, l = .append t r) : Piece (ls ++ rs) :=
  h.then (by simp [declarations_appends hrs]) (by simp [declarations_appends hrs])
    fun _ hD => scoped_appends (fun _ => hD t ht) hrs

/-- A zone's forward chain, entered from `FORWARD`, with what leaves through
the zone again accepted from it when allowed. -/
theorem piece_forward {zone : Value} {allowIntra : Bool} (ht : Unfixed t) :
    Piece (forward zone t allowIntra) := by
  unfold forward inbound
  cases allowIntra
  · have h : Piece [.declare t, .jump "FORWARD" (some (.inbound zone.text)) none t] :=
      piece_entered (by decide) ht
    simpa using h
  · refine (piece_entered (by decide) ht).then (by simp) (by simp) fun D hD => ?_
    exact (scoped_cons _ _).mpr
      ⟨⟨fun _ => hD t (by simp), fun hu => absurd (by decide) hu⟩, trivial⟩

end Chains

section Destinations

/-- A name a zone's chains can have: `local`, `default`, or a numbered one. -/
def ZoneName (m : String) : Prop := m = localZone ∨ m = defaultZone ∨ ∃ i : Nat, m = "zone" ++ toString i

theorem zoneName_of_name {tree zone : Value} {m : String} (h : name tree zone = .ok m) : ZoneName m := by
  rcases name_cases h with ⟨-, rfl | rfl⟩ | ⟨i, -, rfl⟩
  · exact .inl rfl
  · exact .inr (.inl rfl)
  · exact .inr (.inr ⟨i, rfl⟩)

/-- The rests of the chains of a zone's `to` rules: `default`, and `to_` with a
destination's name. -/
def DestRest (s : String) : Prop := s = defaultZone ∨ ∃ m, s = "to_" ++ m ∧ ZoneName m

theorem not_destRest {s : String} (hd : s ≠ defaultZone) (ht : s.toList.head? ≠ some 't') :
    ¬ DestRest s := by
  rintro (rfl | ⟨m, rfl, -⟩)
  · exact hd rfl
  · exact ht (by simp)

theorem to_ne_default (m : String) : "to_" ++ m ≠ defaultZone := by
  intro h
  have := congrArg (fun s : String => s.toList.head?) h
  simp [defaultZone] at this

variable {tree zone : Value} {n target : String} {tl : Option String}

/-- The lines of one destination: none, or its chain, named after it, entered
from `target` or the host's chain (declared if not fixed), then its rules. -/
theorem destination_piece {dest rules : Value} {ls : List Line}
    (h : destination tree zone n target tl dest rules = .ok ls)
    (hsrc : ∀ c ∈ target :: tl.toList, ∀ s, DestRest s → c ≠ n ++ "_" ++ s) :
    (ls = [] ∨ ∃ m, name tree dest = .ok m ∧ declarations ls = [n ++ "_" ++ ("to_" ++ m)]) ∧
      ∀ D, (∀ c ∈ target :: tl.toList, Unfixed c → c ∈ D) → Scoped Unfixed D ls := by
  rcases destination_cases h with rfl | ⟨m, hm, -, entry, ap, hap, rfl, hentry⟩
  · exact ⟨.inl rfl, fun _ _ => trivial⟩
  -- the chain is entered once, from `target` or from the host's chain
  obtain ⟨c, g, cm, hc, rfl⟩ : ∃ c g cm, c ∈ target :: tl.toList ∧
      entry = [.declare (n ++ "_to_" ++ m), .jump c g cm (n ++ "_to_" ++ m)] := by
    rcases hentry with ⟨-, c, rfl, rfl⟩ | ⟨-, rfl⟩
    · exact ⟨c, _, _, by simp, rfl⟩
    · exact ⟨target, _, _, List.mem_cons_self, rfl⟩
  have hrs := appendAll_ok hap
  rw [append_underscore_to] at hrs ⊢
  have hjs : ∀ l ∈ [Line.jump c g cm (n ++ "_" ++ ("to_" ++ m))], ∃ c g cm,
      l = .jump c g cm (n ++ "_" ++ ("to_" ++ m)) :=
    fun l hl => ⟨c, g, cm, List.mem_singleton.mp hl⟩
  refine ⟨.inr ⟨m, hm, declarations_chain hjs hrs⟩,
    fun D hD => scoped_chain (unfixed_joined _ _) ?_ hrs⟩
  intro l hl
  obtain rfl := List.mem_singleton.mp hl
  exact ⟨c, g, cm, rfl, hD c hc, hsrc c hc _ (.inr ⟨m, rfl, zoneName_of_name hm⟩)⟩

/-- The lines of the default destination's chain: its chain, named after the
default zone, entered from `target` and from the host's chain (declared if not
fixed), then its rules. -/
theorem defaultChain_piece {rules : Value} {dc : List Line}
    (h : defaultChain n target tl rules = .ok dc)
    (hsrc : ∀ c ∈ target :: tl.toList, ∀ s, DestRest s → c ≠ n ++ "_" ++ s) :
    declarations dc = [n ++ "_" ++ defaultZone] ∧
      ∀ D, (∀ c ∈ target :: tl.toList, Unfixed c → c ∈ D) → Scoped Unfixed D dc := by
  obtain ⟨ap, hap, rfl⟩ := defaultChain_cases h
  have hrs := appendAll_ok hap
  -- entered once from `target` and once from the host's chain, if any
  have hjs : ∀ l ∈ Line.jump target none none (n ++ "_" ++ defaultZone) ::
      tl.toList.map (fun c => Line.jump c none none (n ++ "_" ++ defaultZone)),
      ∃ c, c ∈ target :: tl.toList ∧ l = .jump c none none (n ++ "_" ++ defaultZone) := by
    intro l hl
    simp only [List.mem_cons, List.mem_map] at hl
    rcases hl with rfl | ⟨c, hc, rfl⟩
    · exact ⟨target, List.mem_cons_self, rfl⟩
    · exact ⟨c, List.mem_cons_of_mem _ hc, rfl⟩
  refine ⟨declarations_chain (fun l hl => ?_) hrs,
    fun D hD => scoped_chain (unfixed_joined _ _) (fun l hl => ?_) hrs⟩
  · obtain ⟨c, -, rfl⟩ := hjs l hl
    exact ⟨c, none, none, rfl⟩
  · obtain ⟨c, hc, rfl⟩ := hjs l hl
    exact ⟨c, none, none, rfl, hD c hc, hsrc c hc _ (.inl rfl)⟩

/-- The lines of a zone's `to` rules: one chain per destination, named after
it, and the default destination's chain, all entered from `target` or the host's
chain (declared if not fixed); the destinations' names differ, as their keys do. -/
theorem destinations_piece {toZones : Value} {dl : List Line}
    (hn : name tree zone = .ok n) (hz : KeyedTo 1 toZones) (hexact : ExactNamesTo tree 1 toZones)
    (h : destinations tree zone target tl toZones = .ok dl)
    (hsrc : ∀ c ∈ target :: tl.toList, ∀ s, DestRest s → c ≠ n ++ "_" ++ s) :
    (declarations dl).Nodup ∧ Named n DestRest dl ∧
      ∀ D, (∀ c ∈ target :: tl.toList, Unfixed c → c ∈ D) → Scoped Unfixed D dl := by
  obtain ⟨entries, he, listed, hlisted, hdl⟩ := destinations_cases h hn
  have hS : ∀ D E, (∀ c ∈ target :: tl.toList, Unfixed c → c ∈ D) →
      ∀ c ∈ target :: tl.toList, Unfixed c → c ∈ E ++ D :=
    fun D E hD c hc hu => List.mem_append_right _ (hD c hc hu)
  -- one chain per destination, named after it
  have hnamed : Named n (fun s => ∃ m, s = "to_" ++ m ∧ ZoneName m) listed := by
    refine flatMapM_ok_closed Named.nil (fun _ _ => Named.append) hlisted ?_
    rintro ⟨dest, rules⟩ - zs hzs
    rcases (destination_piece hzs hsrc).1 with rfl | ⟨m, hm, hd⟩
    · exact Named.nil
    · exact named_single ⟨m, rfl, zoneName_of_name hm⟩ hd
  have hnodup : (declarations listed).Nodup := by
    refine flatMapM_ok_nodup declarations_nil declarations_append hlisted (hz.entries he).1 ?_ ?_
    · rintro ⟨dest, rules⟩ - zs hzs
      rcases (destination_piece hzs hsrc).1 with rfl | ⟨m, -, hd⟩
      · simp
      · simp [hd]
    · -- two destinations with one name are one key
      rintro ⟨dx, rx⟩ hmx ⟨dy, ry⟩ hmy hxy zx zy hx hy c hcx hcy
      rcases (destination_piece hx hsrc).1 with rfl | ⟨m, hm, hdx⟩
      · simp at hcx
      rcases (destination_piece hy hsrc).1 with rfl | ⟨m', hm', hdy⟩
      · simp at hcy
      rw [hdx, List.mem_singleton] at hcx
      rw [hdy, List.mem_singleton, hcx, String.append_right_inj, String.append_right_inj] at hcy
      subst hcy
      have := sameKey_of_name hm hm' (hexact.entries he _ hmx).1
        (hexact.entries he _ hmy).1
      simp_all
  have hscope : ∀ D, (∀ c ∈ target :: tl.toList, Unfixed c → c ∈ D) →
      Scoped Unfixed D listed := by
    refine @flatMapM_ok_closed _ _ _ _
      (fun zs => ∀ D, (∀ c ∈ target :: tl.toList, Unfixed c → c ∈ D) → Scoped Unfixed D zs)
      (fun _ _ => trivial) (fun _ _ ha hb => scoped_append_of hS ha hb) _ _ hlisted ?_
    rintro ⟨dest, rules⟩ - zs hzs
    exact (destination_piece hzs hsrc).2
  -- the default destination's chain comes last
  rcases hdl with rfl | ⟨rules, dc, hdc, rfl⟩
  · exact ⟨hnodup, hnamed.mono fun s hs => .inr hs, hscope⟩
  obtain ⟨hdecl, hdscope⟩ := defaultChain_piece hdc hsrc
  have hnd : Named n (· = defaultZone) dc := named_single rfl hdecl
  refine ⟨?_, (hnamed.mono fun s hs => .inr hs).append (hnd.mono fun s hs => .inl hs),
    scoped_append_of hS hscope hdscope⟩
  rw [declarations_append, List.nodup_append, hdecl]
  refine ⟨hnodup, List.nodup_singleton _, ?_⟩
  rintro c hc _ hc' rfl
  exact hnamed.disjoint hnd (fun s ⟨m, hm, _⟩ hs => to_ne_default m (hm ▸ hs)) c hc
    (by rw [hdecl]; exact hc')

end Destinations

section Entries

/-- The built-in chains that a zone's rules may name. -/
def entryChains : List String := ["PREROUTING", "INPUT", "FORWARD", "OUTPUT", "POSTROUTING"]

/-- The rests of the chains that the entry lines of `chain` declare: the
built-in chain's name, or for `to`, which is refused beside `INPUT`, `FORWARD`
and `OUTPUT`, the input and forward chains and the destinations' rests. -/
def EntryRest (chains chain : Value) (s : String) : Prop :=
  (chain = .str s ∧ s ∈ entryChains) ∨
    (chain = .str "to" ∧ (∀ c ∈ ["INPUT", "FORWARD", "OUTPUT"], chains.hasKey c = false) ∧
      (s = "INPUT" ∨ s = "FORWARD" ∨ DestRest s))

theorem not_destRest_entry {s : String} (hs : s ∈ entryChains) : ¬ DestRest s := by
  simp only [entryChains, List.mem_cons, List.not_mem_nil, or_false] at hs
  rcases hs with rfl | rfl | rfl | rfl | rfl <;> exact not_destRest (by decide) (by decide)

theorem entryChains_fixed {s : String} (hs : s ∈ entryChains) : s ∈ fixedChains := by
  revert s
  decide

/-- The rests of the chains that a zone's lines declare: a built-in chain's
name, or a destination's rest. -/
def ZoneRest (s : String) : Prop := s ∈ entryChains ∨ DestRest s

/-- A built-in chain's chain and those of `to` are apart: `to` is refused beside
an `INPUT` or `FORWARD` chain, and no destination's rest names a built-in chain. -/
theorem entryRest_builtin_to {chains k k' x : Value} {kvs : List (Value × Value)} {s : String}
    (he : chains.entries = .ok kvs) (hm : (k, x) ∈ kvs) (hs : k = .str s ∧ s ∈ entryChains)
    (hs' : k' = .str "to" ∧ (∀ c ∈ ["INPUT", "FORWARD", "OUTPUT"], chains.hasKey c = false) ∧
      (s = "INPUT" ∨ s = "FORWARD" ∨ DestRest s)) : False := by
  obtain ⟨rfl, hb⟩ := hs
  obtain ⟨-, hno, hs⟩ := hs'
  rcases hs with rfl | rfl | hd
  · exact absurd (hasKey_of_mem he hm) (by simp [hno "INPUT" (by simp)])
  · exact absurd (hasKey_of_mem he hm) (by simp [hno "FORWARD" (by simp)])
  · exact not_destRest_entry hb hd

/-- Two different chains of one table declare chains with different rests. -/
theorem entryRest_apart {chains k k' x x' : Value} {kvs : List (Value × Value)} {s : String}
    (he : chains.entries = .ok kvs) (hm : (k, x) ∈ kvs) (hm' : (k', x') ∈ kvs)
    (hne : Value.sameKey k k' = false) (hs : EntryRest chains k s) (hs' : EntryRest chains k' s) :
    False := by
  rcases hs with hs | hs <;> rcases hs' with hs' | hs'
  · -- two built-in chains of one name are one key
    rw [hs.1, hs'.1] at hne
    simp at hne
  · exact entryRest_builtin_to he hm hs hs'
  · exact entryRest_builtin_to he hm' hs' hs
  · rw [hs.1, hs'.1] at hne
    simp at hne

theorem EntryRest.zoneRest {chains chain : Value} {s : String} (h : EntryRest chains chain s) :
    ZoneRest s := by
  rcases h with ⟨-, hs⟩ | ⟨-, -, rfl | rfl | hd⟩
  · exact .inl hs
  · exact .inl (by decide)
  · exact .inl (by decide)
  · exact .inr hd

theorem ruleTarget_str {n c : String} (hc : c ≠ "to") : ruleTarget n (.str c) = n ++ "_" ++ c := by
  simp [ruleTarget, hc]

theorem ruleTarget_to (n : String) : ruleTarget n (.str "to") = n ++ "_FORWARD" := by
  simp [ruleTarget]

variable {tree zone : Value} {n : String} {rs : List Line}

/-- The chain of a built-in chain, entered from it, then given its rules. -/
theorem builtin_piece {chains : Value} {c : String} {g : Option Guard} (hc : c ∈ entryChains)
    (hrs : ∀ l ∈ rs, ∃ r, l = .append (ruleTarget n (.str c)) r) :
    Piece ([.declare (n ++ "_" ++ c), .jump c g none (n ++ "_" ++ c)] ++ rs) ∧
      Named n (EntryRest chains (.str c)) ([.declare (n ++ "_" ++ c),
        .jump c g none (n ++ "_" ++ c)] ++ rs) := by
  rw [ruleTarget_str (by rintro rfl; simp [entryChains] at hc)] at hrs
  refine ⟨(piece_entered (entryChains_fixed hc) (unfixed_joined _ _)).append_rules (by simp) hrs,
    named_single (.inl ⟨rfl, hc⟩) ?_⟩
  simp [declarations_appends hrs]

/-- The entry lines of a chain of a zone's rules, then the rules appended to
its chain, are a piece, and declare chains of the zone with the chain's rests. -/
theorem entry_piece {allowIntra : Bool} {chains chain items : Value} {entry : List Line}
    (hn : name tree zone = .ok n) (hitems : KeyedTo 1 items) (hexact : ExactNamesTo tree 1 items)
    (h : chainEntry tree zone n allowIntra chains chain items = .ok entry)
    (hrs : ∀ l ∈ rs, ∃ r, l = .append (ruleTarget n chain) r) :
    Piece (entry ++ rs) ∧ Named n (EntryRest chains chain) (entry ++ rs) := by
  rcases chainEntry_cases h with ⟨c, hc, rfl, rfl⟩ | ⟨rfl, rfl⟩ | ⟨rfl, hno, dl, hdl, rfl⟩ |
    ⟨c, hc, rfl, rfl⟩
  · -- `PREROUTING` and `INPUT`
    exact builtin_piece ((by simp [entryChains] : ["PREROUTING", "INPUT"] ⊆ entryChains) hc) hrs
  · -- `FORWARD`
    rw [ruleTarget_str (by decide)] at hrs
    refine ⟨(piece_forward (unfixed_joined _ _)).append_rules
      (by cases allowIntra <;> simp [forward, inbound]) hrs, named_single (.inl ⟨rfl, by decide⟩) ?_⟩
    cases allowIntra <;> simp [forward, inbound, declarations_appends hrs]
  · -- `to`: the input and forward chains, then the destinations
    rw [ruleTarget_to] at hrs
    -- no destination's chain is the input or the forward chain
    have hsrc : ∀ c ∈ (n ++ "_FORWARD") :: (some (n ++ "_INPUT")).toList, ∀ s, DestRest s →
        c ≠ n ++ "_" ++ s := by
      intro c hc s hs
      simp only [Option.toList_some, List.mem_cons, List.not_mem_nil, or_false] at hc
      rcases hc with rfl | rfl
      · rw [append_underscore_forward, Ne, String.append_right_inj]
        rintro rfl
        exact not_destRest_entry (by decide) hs
      · rw [append_underscore_input, Ne, String.append_right_inj]
        rintro rfl
        exact not_destRest_entry (by decide) hs
    obtain ⟨hnd, hnamed, hscope⟩ := destinations_piece hn hitems hexact hdl hsrc
    have hpre : Piece (inbound zone "INPUT" (n ++ "_INPUT") none ++
        forward zone (n ++ "_FORWARD") allowIntra) := by
      refine (piece_entered (by decide) (append_underscore_input n ▸ unfixed_joined _ _)).append
        (piece_forward (append_underscore_forward n ▸ unfixed_joined _ _)) ?_
      cases allowIntra <;> simp [forward, inbound]
    have hdpre : declarations (inbound zone "INPUT" (n ++ "_INPUT") none ++
        forward zone (n ++ "_FORWARD") allowIntra) = [n ++ "_INPUT", n ++ "_FORWARD"] := by
      cases allowIntra <;> simp [forward, inbound]
    have hdrs : declarations rs = [] := declarations_appends hrs
    refine ⟨(hpre.then hnd ?_ fun D hD => hscope D ?_).append_rules ?_ hrs, ?_⟩
    · intro c hc hc'
      obtain ⟨s, rfl, hs⟩ := hnamed c hc'
      rw [hdpre] at hc
      exact hsrc _ (by simp at hc ⊢; tauto) s hs rfl
    · intro c hc _
      exact hD c (by rw [hdpre]; simp at hc ⊢; tauto)
    · rw [declarations_append, hdpre]
      simp
    · -- the input and forward chains, and the destinations' chains
      intro c hc
      simp only [declarations_append, hdpre, hdrs, List.append_nil, List.mem_append,
        List.mem_cons, List.not_mem_nil, or_false] at hc
      rcases hc with (rfl | rfl) | hc
      · exact ⟨"INPUT", append_underscore_input n, .inr ⟨rfl, hno, .inl rfl⟩⟩
      · exact ⟨"FORWARD", append_underscore_forward n, .inr ⟨rfl, hno, .inr (.inl rfl)⟩⟩
      · obtain ⟨s, hcs, hs⟩ := hnamed c hc
        exact ⟨s, hcs, .inr ⟨rfl, hno, .inr (.inr hs)⟩⟩
  · -- `OUTPUT` and `POSTROUTING`
    exact builtin_piece ((by simp [entryChains] : ["OUTPUT", "POSTROUTING"] ⊆ entryChains) hc) hrs

end Entries

section Tables

variable {tree zone : Value} {n : String} {S : String → Prop}

/-- A traversal whose steps give pieces through the view `v`, where the pieces
of related inputs declare chains apart, gives a piece. -/
theorem flatMapM_piece {α β : Type} {f : α → Except Fault (List β)} {v : List β → List Line}
    (hv0 : v [] = []) (hv : ∀ a b, v (a ++ b) = v a ++ v b) {R : α → α → Prop}
    {xs : List α} {ys : List β} (h : xs.flatMapM f = .ok ys) (hR : xs.Pairwise R)
    (hstep : ∀ x ∈ xs, ∀ zs, f x = .ok zs → Piece (v zs))
    (hsep : ∀ x ∈ xs, ∀ y ∈ xs, R x y → ∀ zx zy, f x = .ok zx → f y = .ok zy →
      ∀ c ∈ declarations (v zx), c ∉ declarations (v zy)) : Piece (v ys) where
  nodup := @flatMapM_ok_nodup _ _ _ _ (fun zs => declarations (v zs)) (by simp [hv0])
    (by simp [hv]) f R xs ys h hR (fun x hx zs hzs => (hstep x hx zs hzs).nodup) hsep
  scope := @flatMapM_ok_closed _ _ _ f (fun zs => ∀ D, Scoped Unfixed D (v zs))
    (fun _ => by rw [hv0]; trivial)
    (fun a b ha hb D => by rw [hv]; exact scoped_append.mpr ⟨ha D, hb _⟩) xs ys h
    fun x hx zs hzs => (hstep x hx zs hzs).scope

theorem flatMapM_named {α β : Type} {f : α → Except Fault (List β)} {v : List β → List Line}
    (hv0 : v [] = []) (hv : ∀ a b, v (a ++ b) = v a ++ v b) {xs : List α} {ys : List β}
    (h : xs.flatMapM f = .ok ys) (hstep : ∀ x ∈ xs, ∀ zs, f x = .ok zs → Named n S (v zs)) :
    Named n S (v ys) :=
  @flatMapM_ok_closed _ _ _ f (fun zs => Named n S (v zs)) (by rw [hv0]; exact Named.nil)
    (fun a b ha hb => by rw [hv]; exact ha.append hb) xs ys h hstep

theorem flatMapM_tagged {α : Type} {f : α → Except Fault (List TableLine)} {tb : Value}
    {xs : List α} {ys : List TableLine} (h : xs.flatMapM f = .ok ys)
    (hstep : ∀ x ∈ xs, ∀ zs, f x = .ok zs → ∀ l ∈ zs, l.1 = tb) : ∀ l ∈ ys, l.1 = tb :=
  @flatMapM_ok_closed _ _ _ f (fun zs => ∀ l ∈ zs, l.1 = tb) (fun _ h => nomatch h)
    (fun _ _ ha hb l hl => (List.mem_append.mp hl).elim (ha l) (hb l)) xs ys h hstep

theorem table_of_mem_inTable {zs : List TableLine} {tb : Value} {table c : String}
    (h : ∀ l ∈ zs, l.1 = tb) (hc : c ∈ declarations (inTable zs table)) : tb = .str table := by
  rw [inTable_of_tagged h] at hc
  split at hc
  · next heq => exact Value.beq_str_iff.mp heq
  · simp at hc

/-- Lines built table by table, from tables with different keys, each
table's lines tagged with it and a piece, are a piece in every table. -/
theorem tables_piece {f : Value × Value → Except Fault (List TableLine)}
    {tables : List (Value × Value)} {ls : List TableLine} (h : tables.flatMapM f = .ok ls)
    (hd : DistinctKeys tables)
    (hstep : ∀ x ∈ tables, ∀ zs, f x = .ok zs →
      (∀ l ∈ zs, l.1 = x.1) ∧ Piece (zs.map (·.2)) ∧ Named n S (zs.map (·.2)))
    (table : String) : Piece (inTable ls table) ∧ Named n S (inTable ls table) := by
  have hview : ∀ x ∈ tables, ∀ zs, f x = .ok zs →
      Piece (inTable zs table) ∧ Named n S (inTable zs table) := by
    intro x hx zs hzs
    obtain ⟨htag, hp, hn⟩ := hstep x hx zs hzs
    rw [inTable_of_tagged htag]
    split
    · exact ⟨hp, hn⟩
    · exact ⟨Piece.nil, Named.nil⟩
  refine ⟨flatMapM_piece (inTable_nil table) (fun a b => inTable_append a b table) h hd
      (fun x hx zs hzs => (hview x hx zs hzs).1) ?_,
    flatMapM_named (inTable_nil table) (fun a b => inTable_append a b table) h
      fun x hx zs hzs => (hview x hx zs hzs).2⟩
  -- two tables with lines in one table are one key
  intro x hx y hy hxy zx zy hzx hzy c hcx hcy
  have h1 := table_of_mem_inTable (hstep x hx zx hzx).1 hcx
  have h2 := table_of_mem_inTable (hstep y hy zy hzy).1 hcy
  rw [h1, h2] at hxy
  simp at hxy

theorem map_snd_tag {tb : Value} (ls : List Line) : (ls.map (tb, ·)).map (·.2) = ls := by
  simp [Function.comp_def]

/-- The lines of an ordinary zone are a piece of its chains in every table. -/
theorem zoneLines_piece {rules : Value} {allowIntra : Bool} {ls : List TableLine}
    (hn : name tree zone = .ok n) (hr : KeyedTo 3 rules) (hexact : ExactNamesTo tree 3 rules)
    (h : zoneLines tree zone rules allowIntra = .ok ls) (table : String) :
    Piece (inTable ls table) ∧ Named n ZoneRest (inTable ls table) := by
  unfold zoneLines at h
  obtain ⟨zn, hzn, h⟩ := except_bind_eq_ok.mp h
  rw [hn] at hzn
  cases hzn
  obtain ⟨tables, hte, h⟩ := except_bind_eq_ok.mp h
  obtain ⟨hdt, hkt⟩ := hr.entries hte
  refine tables_piece h hdt ?_ table
  rintro ⟨tb, chains⟩ hmem zs hzs
  obtain ⟨ces, hce, hzs⟩ := except_bind_eq_ok.mp hzs
  obtain ⟨hdc, hkc⟩ := (hkt _ hmem).entries hce
  have hxc := ((hexact.entries hte _ hmem).2).entries hce
  -- each chain's lines are a piece of the zone's chains with the chain's rests
  have hchain : ∀ x ∈ ces, ∀ ws, chainLines tree zone n allowIntra tb chains x.1 x.2 = .ok ws →
      (∀ l ∈ ws, l.1 = tb) ∧ Piece (ws.map (·.2)) ∧
        Named n (EntryRest chains x.1) (ws.map (·.2)) := by
    rintro ⟨chain, items⟩ hx ws hws
    obtain ⟨entry, he, rfl⟩ := chainLines_ok hws
    rw [map_snd_tag]
    refine ⟨fun l hl => ?_, entry_piece hn (hkc _ hx) (hxc _ hx).2 he appendedRules_append⟩
    obtain ⟨l, -, rfl⟩ := List.mem_map.mp hl
    rfl
  refine ⟨flatMapM_tagged hzs fun ⟨k, i⟩ hx ws hws => (hchain (k, i) hx ws hws).1,
    flatMapM_piece List.map_nil (fun _ _ => List.map_append) hzs hdc
      (fun ⟨k, i⟩ hx ws hws => (hchain (k, i) hx ws hws).2.1) ?_,
    flatMapM_named List.map_nil (fun _ _ => List.map_append) hzs
      fun ⟨k, i⟩ hx ws hws => (hchain (k, i) hx ws hws).2.2.mono fun _ hs => hs.zoneRest⟩
  -- two chains of one table declare chains with different rests
  rintro ⟨k, i⟩ hx ⟨k', i'⟩ hy hxy zx zy hzx hzy
  exact (hchain (k, i) hx zx hzx).2.2.disjoint (hchain (k', i') hy zy hzy).2.2
    fun s hs hs' => entryRest_apart hce hx hy hxy hs hs'

/-- The chains of a table of the local zone that give lines are the keys of a
mapping, `to` at most once: they differ pairwise. -/
theorem localMembers_pairwise {d : Nat} {tb chains : Value} {ms : List Value}
    {zs : List TableLine} (hc : KeyedTo (d + 1) chains) (hms : chains.members = .ok ms)
    (hzs : ms.flatMapM (localChainLines tree zone tb chains) = .ok zs) :
    ms.Pairwise fun a b => Value.sameKey a b = false := by
  cases ms with
  | nil => exact List.Pairwise.nil
  | cons x rest =>
      -- the first chain reads `to` from `chains`, which is therefore a mapping
      rw [List.flatMapM_cons] at hzs
      obtain ⟨ws, hws, -⟩ := except_bind_eq_ok.mp hzs
      obtain ⟨-, toZones, htz, -⟩ := localChainLines_ok hws
      obtain ⟨kvs, hce, -⟩ := child_ok htz
      rw [← Except.ok.inj ((members_of_entries hce).symm.trans hms)]
      exact List.pairwise_map.mpr (hc.entries hce).1

/-- The lines of the local zone are a piece of its chains in every table. -/
theorem localLines_piece {rules : Value} {ls : List TableLine} (hr : KeyedTo 3 rules)
    (hexact : ExactNamesTo tree 3 rules) (h : localLines tree (.str localZone) rules = .ok ls)
    (table : String) :
    Piece (inTable ls table) ∧ Named localZone ZoneRest (inTable ls table) := by
  unfold localLines at h
  obtain ⟨tables, hte, h⟩ := except_bind_eq_ok.mp h
  obtain ⟨hdt, hkt⟩ := hr.entries hte
  refine tables_piece h hdt ?_ table
  rintro ⟨tb, chains⟩ hmem zs hzs
  obtain ⟨ms, hms, hzs⟩ := except_bind_eq_ok.mp hzs
  -- the destinations are entered from `OUTPUT`, which is fixed
  have hsrc : ∀ c ∈ "OUTPUT" :: (none : Option String).toList, ∀ s, DestRest s →
      c ≠ localZone ++ "_" ++ s := by
    intro c hc s _
    obtain rfl := List.mem_singleton.mp hc
    exact fixed_ne_joined (by decide) _ _
  have hmember : ∀ x ∈ ms, ∀ ws, localChainLines tree (.str localZone) tb chains x = .ok ws →
      x = .str "to" ∧ (∀ l ∈ ws, l.1 = tb) ∧ Piece (ws.map (·.2)) ∧
        Named localZone DestRest (ws.map (·.2)) := by
    intro x _ ws hws
    obtain ⟨rfl, toZones, htz, dl, hdl, rfl⟩ := localChainLines_ok hws
    obtain ⟨kvs, hce, k, hkm, -⟩ := child_ok htz
    obtain ⟨hnd, hnamed, hscope⟩ :=
      destinations_piece (name_local tree) (((hkt _ hmem).entries hce).2 _ hkm)
        ((((hexact.entries hte _ hmem).2).entries hce) _ hkm).2 hdl hsrc
    rw [map_snd_tag]
    refine ⟨rfl, fun l hl => ?_, ⟨hnd, fun D => hscope D ?_⟩, hnamed⟩
    · obtain ⟨l, -, rfl⟩ := List.mem_map.mp hl
      rfl
    intro c hc hu
    obtain rfl := List.mem_singleton.mp hc
    exact absurd (by decide) hu
  refine ⟨flatMapM_tagged hzs fun x hx ws hws => (hmember x hx ws hws).2.1,
    flatMapM_piece List.map_nil (fun _ _ => List.map_append) hzs
      (localMembers_pairwise (hkt _ hmem) hms hzs)
      (fun x hx ws hws => (hmember x hx ws hws).2.2.1) ?_,
    flatMapM_named List.map_nil (fun _ _ => List.map_append) hzs
      fun x hx ws hws => (hmember x hx ws hws).2.2.2.mono fun _ hs => .inr hs⟩
  intro x hx y hy hxy zx zy hzx hzy
  rw [(hmember x hx zx hzx).1, (hmember y hy zy hzy).1] at hxy
  simp at hxy

end Tables

section Zones

variable {tree : Value} {ls : List TableLine}

/-- The lines of one zone are a piece of the zone's chains in every table. -/
theorem linesOf_piece (hk : Keyed tree) {zones : Value} {kvs : List (Value × Value)}
    (hz : tree.getD "zones" (.dict []) = .ok zones) (he : zones.entries = .ok kvs)
    {x : Value × Value} (hx : x ∈ kvs) {zs : List TableLine} (hzs : linesOf tree x.1 x.2 = .ok zs)
    (table : String) :
    ∃ n, name tree x.1 = .ok n ∧ Piece (inTable zs table) ∧ Named n ZoneRest (inTable zs table) := by
  obtain ⟨-, hkz⟩ := hk.zones hz he
  obtain ⟨zone, params⟩ := x
  obtain ⟨rules, hr, ⟨rfl, hzs⟩ | ⟨-, allowIntra, hzs⟩⟩ := linesOf_ok hzs
  · obtain ⟨hkr, hxr⟩ := (hkz _ hx).2 rules hr
    exact ⟨localZone, name_local tree, localLines_piece hkr hxr hzs table⟩
  · obtain ⟨hkr, hxr⟩ := (hkz _ hx).2 rules hr
    obtain ⟨n, hn⟩ := zoneLines_name hzs
    exact ⟨n, hn, zoneLines_piece hn hkr hxr hzs table⟩

/-- The lines of the zones of a keyed configuration are a piece in every table. -/
theorem allLines_piece (hk : Keyed tree) (h : allLines tree = .ok ls) (table : String) :
    Piece (inTable ls table) := by
  unfold allLines at h
  obtain ⟨zones, hz, h⟩ := except_bind_eq_ok.mp h
  obtain ⟨kvs, he, h⟩ := except_bind_eq_ok.mp h
  obtain ⟨hd, -⟩ := hk.zones hz he
  refine flatMapM_piece (inTable_nil table) (fun a b => inTable_append a b table) h hd
    (fun x hx zs hzs => (linesOf_piece hk hz he hx hzs table).choose_spec.2.1) ?_
  -- the chains of two zones are apart: their names differ, as their keys do
  rintro x hx y hy hxy zx zy hzx hzy c hcx hcy
  obtain ⟨n, hn, -, hnx⟩ := linesOf_piece hk hz he hx hzx table
  obtain ⟨n', hn', -, hny⟩ := linesOf_piece hk hz he hy hzy table
  obtain ⟨s, rfl, -⟩ := hnx c hcx
  obtain ⟨s', he', -⟩ := hny _ hcy
  obtain ⟨rfl, -⟩ := append_underscore_inj (underscore_not_mem_name hn)
    (underscore_not_mem_name hn') he'
  have := hk.sameKey_of_zone_name hz he hx hy hn hn'
  simp_all

/-- Every chain that the zone lines declare is named by a zone's name, `_` and
a rest: a built-in chain's name, `default`, or `to_` and a zone's name. -/
theorem allLines_named (hk : Keyed tree) (h : allLines tree = .ok ls) (table : String) :
    ∀ c ∈ declarations (inTable ls table), ∃ n s, c = n ++ "_" ++ s ∧ ZoneName n ∧ ZoneRest s := by
  unfold allLines at h
  obtain ⟨zones, hz, h⟩ := except_bind_eq_ok.mp h
  obtain ⟨kvs, he, h⟩ := except_bind_eq_ok.mp h
  refine @flatMapM_ok_closed _ _ _ _
    (fun zs => ∀ c ∈ declarations (inTable zs table), ∃ n s, c = n ++ "_" ++ s ∧ ZoneName n ∧
      ZoneRest s) (fun _ h => nomatch h) (fun a b ha hb c hc => ?_) _ _ h ?_
  · rw [inTable_append, declarations_append, List.mem_append] at hc
    exact hc.elim (ha c) (hb c)
  · intro x hx zs hzs c hc
    obtain ⟨n, hn, -, hnamed⟩ := linesOf_piece hk hz he hx hzs table
    obtain ⟨s, rfl, hs⟩ := hnamed c hc
    exact ⟨n, s, rfl, zoneName_of_name hn, hs⟩

/-- In every table, the zone lines of a keyed configuration declare each chain
once; a line that uses a chain they declare comes after the declaration; every
chain they use is declared or fixed; a jump between chains they declare goes
from the one declared first, so such jumps form no loop. -/
theorem zone_chains_declared_in_order (h : allLines tree = .ok ls) (hk : Keyed tree)
    (table : String) :
    ChainOrder (inTable ls table) ∧
      (∀ l ∈ inTable ls table, ∀ c ∈ l.uses,
        c ∈ declarations (inTable ls table) ∨ c ∈ fixedChains) ∧
      ∀ c, ¬ Relation.TransGen (DeclaredJump (inTable ls table)) c c := by
  have hp := allLines_piece hk h table
  have ho := (hp.scope []).chainOrder hp.nodup
  refine ⟨ho, fun l hl c hc => ?_, ho.no_loop⟩
  by_cases hf : c ∈ fixedChains
  · exact .inr hf
  · exact .inl ((hp.scope []).used_declared l hl c hc hf)

/-- The host, `lan` with rules for its destinations, and `wan` with input,
forward and address translation rules. -/
def hostLanWan : Value :=
  .dict [(.str "zones", .dict [
    (.str "local", .dict [(.str "rules", .dict [(.str "filter", .dict [(.str "to", .dict [
      (.str "lan", .list [.str "-j ACCEPT"])])])])]),
    (.str "lan", .dict [(.str "rules", .dict [(.str "filter", .dict [(.str "to", .dict [
      (.str "wan", .list [.str "-j ACCEPT"]), (.str "local", .list [.str "-j ACCEPT"]),
      (.str "default", .list [.str "-j DROP"])])])])]),
    (.str "wan", .dict [(.str "rules", .dict [
      (.str "filter", .dict [(.str "INPUT", .list [.str "-j DROP"]),
        (.str "FORWARD", .list [.str "-j DROP"])]),
      (.str "nat", .dict [(.str "POSTROUTING", .list [.str "-j MASQUERADE"])])])])])]

end Zones

end Zone
end Firewall
