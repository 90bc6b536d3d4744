import Firewall.Restore.Script
import Firewall.Proofs.Zone.Order

/-!
# Every configured rule, once, in script order

A configuration gives its rules as rule lists: under `helper_chains`,
`pre_default`, `default` and `pre_zone` a mapping from tables to chains to
rules, and under each zone's `rules` a mapping from tables to the zone's chains,
where `to` maps destination zones to rules.  `configuredRules` lists them as the
configuration reads, each rule appended to the chain it belongs to: the
configured chain, the zone's chain for it (`zone0_INPUT`), the chain towards a
destination (`zone0_to_zone1`), or the zone's default chain (`zone0_default`).
Within a zone's `to` rules the default destination's rules come last, wherever
the configuration lists it, since its chain catches what the others leave.

**Input.**  A configuration whose rule lists are lists, or null for none, and
whose zones' tables have chains with keys that differ pairwise
(`RulesAsLists`).  What a rule list written as one text gives is not described
here.

**Results.**
* `appended_configLines`: the rules that the generated lines append are
  exactly the configured rules, in order; every other line is a policy, a
  declaration or a jump, which carries no rule.
* `script_sections`: the restore script lists, table by table, the header, the
  expansion of each line of that table in order, and `COMMIT`.
* `configured_rules_in_script`: together, each configured rule is expanded
  once, in its table's section, in the order above.
-/

namespace Firewall

section Traverse

variable {α β γ ε : Type}

/-- A traversal whose steps each give, through a view `d` that distributes
over concatenation, what `g` gives, gives through `d` what `List.flatMap g`
gives. -/
theorem flatMapM_ok_view (d : List β → List γ) (hd0 : d [] = [])
    (hd : ∀ a b, d (a ++ b) = d a ++ d b) {f : α → Except ε (List β)} {g : α → List γ} :
    ∀ {xs : List α} {ys : List β}, xs.flatMapM f = .ok ys →
      (∀ x ∈ xs, ∀ zs, f x = .ok zs → d zs = g x) → d ys = xs.flatMap g
  | [], ys, h, _ => by
      rw [List.flatMapM_nil] at h
      cases h
      exact hd0
  | x :: xs, ys, h, hstep => by
      rw [List.flatMapM_cons] at h
      obtain ⟨zs, hx, h⟩ := except_bind_eq_ok.mp h
      obtain ⟨rest, hrest, h⟩ := except_bind_eq_ok.mp h
      cases h
      rw [hd, List.flatMap_cons, hstep x List.mem_cons_self zs hx,
        flatMapM_ok_view d hd0 hd hrest fun x' hx' => hstep x' (List.mem_cons_of_mem _ hx')]

/-- Every result of a mapping that succeeds comes from one of its steps. -/
theorem mem_of_mapM_ok {f : α → Except ε β} :
    ∀ {xs : List α} {ys : List β}, xs.mapM f = .ok ys → ∀ y ∈ ys, ∃ x ∈ xs, f x = .ok y
  | [], ys, h, y, hy => by
      rw [List.mapM_nil] at h
      cases h
      cases hy
  | x :: xs, ys, h, y, hy => by
      rw [List.mapM_cons] at h
      obtain ⟨z, hx, h⟩ := except_bind_eq_ok.mp h
      obtain ⟨rest, hrest, h⟩ := except_bind_eq_ok.mp h
      cases h
      rcases List.mem_cons.mp hy with rfl | hy
      · exact ⟨x, List.mem_cons_self, hx⟩
      · obtain ⟨x', hx', hy'⟩ := mem_of_mapM_ok hrest y hy
        exact ⟨x', List.mem_cons_of_mem _ hx', hy'⟩

end Traverse

namespace Rule

/-- Whether a line appends a configured rule to a chain. -/
def Line.isAppend : Line → Bool
  | .append _ _ => true
  | _ => false

/-- The lines that append configured rules, in order. -/
def appended (ls : List TableLine) : List TableLine := ls.filter (·.2.isAppend)

@[simp] theorem isAppend_policy (c v : String) : (Line.policy c v).isAppend = false := rfl

@[simp] theorem isAppend_declare (c : String) : (Line.declare c).isAppend = false := rfl

@[simp] theorem isAppend_jump (c : String) (g : Option Guard) (cm : Option String) (t : String) :
    (Line.jump c g cm t).isAppend = false := rfl

@[simp] theorem isAppend_append (c r : String) : (Line.append c r).isAppend = true := rfl

@[simp] theorem appended_nil : appended [] = [] := rfl

@[simp] theorem appended_append (ls ls' : List TableLine) :
    appended (ls ++ ls') = appended ls ++ appended ls' :=
  List.filter_append ..

/-- The rules appended by the lines of one table. -/
@[simp] theorem appended_tag (tb : Value) (ls : List Line) :
    appended (ls.map (tb, ·)) = (ls.filter Line.isAppend).map (tb, ·) := by
  simp only [appended, List.filter_map]
  rfl

theorem appended_eq_nil {ls : List TableLine} (h : ∀ l ∈ ls, l.2.isAppend = false) :
    appended ls = [] :=
  List.filter_eq_nil_iff.mpr fun l hl => by simp [h l hl]

end Rule

namespace Restore

open Rule Zone

section Configured

/-- The entries of a mapping; none for any other value. -/
def entriesOr (v : Value) : List (Value × Value) := v.mapping?.getD []

/-- The value under a key of a mapping; null when there is none. -/
def fieldOf (v : Value) (k : String) : Value := (Value.lookup (entriesOr v) (.str k)).getD .null

/-- Whether a value is a rule list as a configuration writes one: a list of
rules, or null for none. -/
def isRuleList (v : Value) : Bool :=
  match v.unfold with
  | .null | .list _ => true
  | _ => false

/-- The rules of a rule list. -/
def ruleItems (v : Value) : List Value :=
  match v.unfold with
  | .list xs => xs
  | _ => []

/-- The rules of a rule list, each appended to `chain`. -/
def appendRules (chain : String) (rules : Value) : List Line :=
  (ruleItems rules).map fun r => .append chain r.text

/-- The rules of a mapping from tables to chains to rule lists, each appended
to its chain in its table, by table, chain and rule. -/
def listedRules (lists : Value) : List TableLine :=
  (entriesOr lists).flatMap fun (table, chains) =>
    (entriesOr chains).flatMap fun (chain, rules) => (appendRules chain.text rules).map (table, ·)

/-- The name of a zone's chains. -/
def zoneName (tree zone : Value) : String := ((name tree zone).toOption).getD ""

/-- The rules of a zone's destinations: each destination's rules appended to
the chain towards it, and last, wherever it is listed, the default
destination's rules appended to the zone's default chain. -/
def destinationRules (tree : Value) (zn : String) (toZones : Value) : List Line :=
  (entriesOr toZones).flatMap (fun e =>
      if e.1 == .str defaultZone then []
      else appendRules (zn ++ "_to_" ++ zoneName tree e.1) e.2) ++
    appendRules (zn ++ "_" ++ defaultZone) (fieldOf toZones defaultZone)

/-- The rules of one chain of a zone: those of its destinations for `to`, else
appended to the zone's own chain for it. -/
def chainRules (tree : Value) (zn : String) (chain items : Value) : List Line :=
  if chain == .str "to" then destinationRules tree zn items
  else appendRules (zn ++ "_" ++ chain.text) items

/-- The rules of a zone, by table and chain. -/
def zoneRules (tree zone rules : Value) : List TableLine :=
  (entriesOr rules).flatMap fun (table, chains) =>
    (entriesOr chains).flatMap fun (chain, items) =>
      (chainRules tree (zoneName tree zone) chain items).map (table, ·)

/-- The rule lists outside the zones, in script order. -/
def ruleListKeys : List String := ["helper_chains", "pre_default", "default", "pre_zone"]

/-- Every configured rule appended to its chain, in script order: the rules of
the helper chains, of `pre_default`, `default` and `pre_zone`, then each
zone's. -/
def configuredRules (tree : Value) : List TableLine :=
  ruleListKeys.flatMap (fun k => listedRules (fieldOf tree k)) ++
    (entriesOr (fieldOf tree "zones")).flatMap fun (zone, params) =>
      zoneRules tree zone (fieldOf params "rules")

/-- Every rule list of a mapping from tables to chains is a list or null. -/
def ListsOf (lists : Value) : Prop :=
  ∀ t ∈ entriesOr lists, ∀ c ∈ entriesOr t.2, isRuleList c.2 = true

/-- The rule lists of a chain of a zone: under `to` each destination's,
otherwise the chain's own. -/
def ChainLists (chain items : Value) : Prop :=
  if chain == .str "to" then ∀ d ∈ entriesOr items, isRuleList d.2 = true
  else isRuleList items = true

/-- The rules of a zone as a configuration gives them: in each table, chains
whose keys differ pairwise, with rule lists that are lists or null. -/
def ZoneLists (rules : Value) : Prop :=
  ∀ t ∈ entriesOr rules, KeyedTo 1 t.2 ∧ ∀ c ∈ entriesOr t.2, ChainLists c.1 c.2

/-- A configuration whose rules are given as lists: the rule lists outside the
zones and those of every zone. -/
def RulesAsLists (tree : Value) : Prop :=
  (∀ k ∈ ruleListKeys, ListsOf (fieldOf tree k)) ∧
    ∀ z ∈ entriesOr (fieldOf tree "zones"), ZoneLists (fieldOf z.2 "rules")

instance (chain items : Value) : Decidable (ChainLists chain items) := by
  unfold ChainLists
  infer_instance

instance (tree : Value) : Decidable (RulesAsLists tree) :=
  inferInstanceAs (Decidable ((∀ k ∈ ruleListKeys, ∀ t ∈ entriesOr (fieldOf tree k),
      ∀ c ∈ entriesOr t.2, isRuleList c.2 = true) ∧
    ∀ z ∈ entriesOr (fieldOf tree "zones"), ∀ t ∈ entriesOr (fieldOf z.2 "rules"),
      KeyedTo 1 t.2 ∧ ∀ c ∈ entriesOr t.2, ChainLists c.1 c.2))

end Configured

section Fields

variable {v x : Value} {k : String}

theorem entriesOr_of_entries {kvs : List (Value × Value)} (h : v.entries = .ok kvs) :
    entriesOr v = kvs := by
  unfold Value.entries at h
  unfold entriesOr
  cases hm : v.mapping? with
  | none =>
      rw [hm] at h
      cases h
  | some kvs' =>
      rw [hm] at h
      cases h
      rfl

/-- A key read with no entries as fallback has the entries of the field. -/
theorem entriesOr_getD (h : v.getD k (.dict []) = .ok x) : entriesOr x = entriesOr (fieldOf v k) := by
  unfold Value.getD at h
  unfold fieldOf
  cases hm : v.mapping? with
  | none =>
      rw [hm] at h
      cases h
  | some kvs =>
      rw [hm] at h
      cases h
      have he : entriesOr v = kvs := by simp [entriesOr, hm]
      rw [he]
      cases Value.lookup kvs (.str k) <;> rfl

/-- A key that exists is the field. -/
theorem fieldOf_of_child (h : v.child k = .ok x) : fieldOf v k = x := by
  unfold Value.child at h
  unfold fieldOf entriesOr Value.mapping?
  cases hu : v.unfold <;> simp only [hu] at h ⊢ <;> try cases h
  all_goals
    split at h
    · next x' hl =>
        cases h
        simp [hl]
    · cases h

/-- A key that cannot be read is a field with no entries. -/
theorem entriesOr_fieldOf_of_child {f : Fault} (h : v.child k = .error f) :
    entriesOr (fieldOf v k) = [] := by
  have hl : Value.lookup (entriesOr v) (.str k) = none := by
    unfold Value.child at h
    unfold entriesOr Value.mapping?
    cases hu : v.unfold <;> simp only [hu] at h ⊢ <;> try rfl
    all_goals
      split at h
      · cases h
      · next hl => simpa using hl
  simp only [fieldOf, hl]
  rfl

@[simp] theorem entriesOr_dict_nil : entriesOr (.dict []) = [] := rfl

/-- The members of a rule list that has members are its rules. -/
theorem members_ruleList {ms : List Value} (hr : isRuleList v = true) (h : v.members = .ok ms) :
    ms = ruleItems v := by
  unfold isRuleList at hr
  unfold Value.members at h
  unfold ruleItems
  cases hu : v.unfold <;> simp only [hu] at hr h ⊢ <;> cases h <;> first | rfl | cases hr

/-- A mapping is no list of rules. -/
theorem ruleItems_of_entries {kvs : List (Value × Value)} (h : v.entries = .ok kvs) :
    ruleItems v = [] := by
  unfold Value.entries Value.mapping? at h
  unfold ruleItems
  cases hu : v.unfold <;> simp only [hu] at h ⊢
  cases h

end Fields

section Lists

variable {tree v : Value} {ls : List TableLine}

/-- The rules of a chain, appended to it. -/
theorem appendAll_eq {chain : String} {rules : Value} {al : List Line}
    (hr : isRuleList rules = true) (h : appendAll chain rules = .ok al) :
    al = appendRules chain rules := by
  unfold appendAll at h
  obtain ⟨ms, hms, h⟩ := except_bind_eq_ok.mp h
  cases h
  rw [members_ruleList hr hms]
  rfl

/-- A rule list's lines append its rules, by table, chain and rule. -/
theorem listLines_appended (hl : ListsOf v) (h : listLines v = .ok ls) :
    appended ls = listedRules v := by
  unfold listLines at h
  obtain ⟨tables, ht, h⟩ := except_bind_eq_ok.mp h
  unfold ListsOf at hl
  unfold listedRules
  rw [entriesOr_of_entries ht] at hl ⊢
  refine flatMapM_ok_view appended rfl appended_append h ?_
  rintro ⟨table, chains⟩ hmem zs hzs
  obtain ⟨ces, hces, hzs⟩ := except_bind_eq_ok.mp hzs
  have hc := hl _ hmem
  simp only [entriesOr_of_entries hces] at hc ⊢
  refine flatMapM_ok_view appended rfl appended_append hzs ?_
  rintro ⟨chain, rules⟩ hmc ws hws
  obtain ⟨ms, hms, hws⟩ := except_bind_eq_ok.mp hws
  cases hws
  rw [members_ruleList (hc _ hmc) hms]
  simp [appended, appendRules, List.filter_map, Function.comp_def]

/-- The policies of the built-in chains append no rule. -/
theorem policyLines_appended (h : policyLines tree = .ok ls) : appended ls = [] := by
  unfold policyLines at h
  have := flatMapM_ok_view appended rfl appended_append h fun x _ zs hzs =>
    (show appended zs = [] from appended_eq_nil fun l hl => by
      obtain ⟨chain, -, hl⟩ := mem_of_mapM_ok hzs l hl
      obtain ⟨verdict, -, hl⟩ := except_bind_eq_ok.mp hl
      cases hl
      rfl)
  exact this.trans (List.flatMap_eq_nil_iff.mpr fun _ _ => rfl)

/-- The helper chains' lines: declarations, then their rules. -/
theorem helperLines_appended (hl : ListsOf (fieldOf tree "helper_chains"))
    (h : helperLines tree = .ok ls) : appended ls = listedRules (fieldOf tree "helper_chains") := by
  unfold helperLines at h
  obtain ⟨tables, -, h⟩ := except_bind_eq_ok.mp h
  obtain ⟨declared, hdecl, h⟩ := except_bind_eq_ok.mp h
  obtain ⟨listed, hlisted, h⟩ := except_bind_eq_ok.mp h
  cases h
  have hd : appended declared = [] := by
    have := flatMapM_ok_view appended rfl appended_append hdecl fun x _ zs hzs =>
      (show appended zs = [] from appended_eq_nil fun l hl => by
        obtain ⟨ms, -, hzs⟩ := except_bind_eq_ok.mp hzs
        obtain ⟨c, -, hl⟩ := mem_of_mapM_ok hzs l hl
        obtain ⟨name, -, hl⟩ := except_bind_eq_ok.mp hl
        cases hl
        rfl)
    exact this.trans (List.flatMap_eq_nil_iff.mpr fun _ _ => rfl)
  rw [appended_append, hd, List.nil_append]
  -- the helper chains are the field, or no entries when it cannot be read
  split at hlisted
  · next x hx =>
      rw [fieldOf_of_child hx] at hl ⊢
      exact listLines_appended hl hlisted
  · next f hx =>
      have he := entriesOr_fieldOf_of_child hx
      rw [listLines_appended (by simp [ListsOf]) hlisted]
      simp only [listedRules, he]
      rfl

end Lists


section Zones

variable {tree zone : Value}

/-- A rule list's rules, appended, are all appends. -/
@[simp] theorem filter_appendRules (chain : String) (rules : Value) :
    (appendRules chain rules).filter Line.isAppend = appendRules chain rules :=
  List.filter_eq_self.mpr fun l hl => by
    obtain ⟨r, -, rfl⟩ := List.mem_map.mp hl
    rfl

/-- The rules of a zone's chain are appended to the chain that `ruleTarget`
names when they are a list. -/
theorem appendedRules_eq (n : String) (chain items : Value) :
    appendedRules n chain items = appendRules (ruleTarget n chain) items := by
  unfold appendedRules appendRules ruleItems
  cases items.unfold <;> rfl

/-- A chain with no members is no mapping with entries. -/
theorem entriesOr_nil_of_members {v : Value} (h : v.members = .ok []) : entriesOr v = [] := by
  unfold Value.members at h
  unfold entriesOr Value.mapping?
  cases hu : v.unfold <;> simp only [hu] at h ⊢ <;> try rfl
  all_goals
    have := (Except.ok.inj h).symm
    simp_all

theorem zoneName_of_name {n : String} (h : name tree zone = .ok n) : zoneName tree zone = n := by
  simp [zoneName, h, Except.toOption]

/-- The lines of a destination append its rules to the chain towards it; those
of the default destination are appended elsewhere. -/
theorem destination_appended {zn target : String} {tl : Option String} {dest rules : Value}
    {ls : List Line} (hr : isRuleList rules = true)
    (h : destination tree zone zn target tl dest rules = .ok ls) :
    ls.filter Line.isAppend = if dest == .str defaultZone then []
      else appendRules (zn ++ "_to_" ++ zoneName tree dest) rules := by
  unfold destination at h
  obtain ⟨m, hm, h⟩ := except_bind_eq_ok.mp h
  cases hd : dest == .str defaultZone with
  | true =>
      simp only [hd, if_true] at h ⊢
      cases h
      rfl
  | false =>
      simp only [hd, Bool.false_eq_true, if_false] at h ⊢
      obtain ⟨ap, hap, h⟩ := except_bind_eq_ok.mp h
      cases h
      rw [List.filter_append, appendAll_eq hr hap, filter_appendRules, zoneName_of_name hm]
      -- the destination's chain is declared and entered, which appends no rule
      split <;> rfl

/-- The default destination's chain appends its rules to the zone's default
chain. -/
theorem defaultChain_appended {zn target : String} {tl : Option String} {rules : Value}
    {dc : List Line} (hr : isRuleList rules = true) (h : defaultChain zn target tl rules = .ok dc) :
    dc.filter Line.isAppend = appendRules (zn ++ "_" ++ defaultZone) rules := by
  obtain ⟨ap, hap, rfl⟩ := defaultChain_cases h
  rw [appendAll_eq hr hap]
  cases tl <;> simp

/-- The lines of a zone's `to` rules append the rules of its destinations, the
default destination's last. -/
theorem destinations_appended {n target : String} {tl : Option String} {toZones : Value}
    {dl : List Line} (hn : name tree zone = .ok n)
    (hl : ∀ d ∈ entriesOr toZones, isRuleList d.2 = true)
    (h : destinations tree zone target tl toZones = .ok dl) :
    dl.filter Line.isAppend = destinationRules tree n toZones := by
  unfold destinations at h
  obtain ⟨zn, hzn, h⟩ := except_bind_eq_ok.mp h
  rw [hn] at hzn
  cases hzn
  obtain ⟨entries, he, h⟩ := except_bind_eq_ok.mp h
  obtain ⟨listed, hlisted, h⟩ := except_bind_eq_ok.mp h
  unfold destinationRules fieldOf
  rw [entriesOr_of_entries he] at hl ⊢
  have hlisted' : listed.filter Line.isAppend = entries.flatMap fun e =>
      if e.1 == .str defaultZone then [] else appendRules (n ++ "_to_" ++ zoneName tree e.1) e.2 :=
    flatMapM_ok_view _ rfl (fun a b => List.filter_append ..) hlisted
      fun ⟨dest, rules⟩ hmem zs hzs => destination_appended (hl _ hmem) hzs
  cases hd : Value.lookup entries (.str defaultZone) with
  | none =>
      rw [hd] at h
      cases h
      rw [hlisted', Option.getD_none]
      exact (List.append_nil _).symm
  | some rules =>
      rw [hd] at h
      obtain ⟨dc, hdc, h⟩ := except_bind_eq_ok.mp h
      cases h
      obtain ⟨k, hmem, -⟩ := lookup_some hd
      rw [List.filter_append, hlisted', defaultChain_appended (hl _ hmem) hdc]
      rfl

/-- A zone's chain: its entry lines append the rules of its destinations for
`to` and nothing otherwise, and its own rules follow. -/
theorem chainEntry_appended {n : String} {allowIntra : Bool} {chains chain items : Value}
    {entry : List Line} (hn : name tree zone = .ok n) (hl : ChainLists chain items)
    (h : chainEntry tree zone n allowIntra chains chain items = .ok entry) :
    entry.filter Line.isAppend ++ appendedRules n chain items = chainRules tree n chain items := by
  rw [appendedRules_eq]
  unfold ChainLists at hl
  unfold chainRules
  rcases chainEntry_cases h with ⟨c, hc, rfl, rfl⟩ | ⟨rfl, rfl⟩ | ⟨rfl, -, dl, hdl, rfl⟩ |
      ⟨c, hc, rfl, rfl⟩
  · -- `PREROUTING` and `INPUT`
    have hto : c ≠ "to" := by rintro rfl; simp at hc
    simp only [Value.beq_str_iff, Value.str.injEq, hto, if_false] at hl ⊢
    simp [inbound, ruleTarget_str hto, Value.text]
  · -- `FORWARD`
    simp only [Value.beq_str_iff, Value.str.injEq] at hl ⊢
    cases allowIntra <;> simp [forward, inbound, ruleTarget_str (show "FORWARD" ≠ "to" by decide),
      Value.text]
  · -- `to`: the destinations, and no list of rules of its own
    simp only [Value.beq_str_iff, ↓reduceIte] at hl ⊢
    obtain ⟨entries, he, -⟩ := destinations_cases hdl hn
    rw [List.filter_append, destinations_appended hn hl hdl]
    simp [inbound, forward, appendRules, ruleItems_of_entries he]
  · -- `OUTPUT` and `POSTROUTING`
    have hto : c ≠ "to" := by rintro rfl; simp at hc
    simp only [Value.beq_str_iff, Value.str.injEq, hto, if_false] at hl ⊢
    simp [outbound, ruleTarget_str hto, Value.text]

/-- The lines of a zone's chain in a table append the chain's rules there. -/
theorem chainLines_appended {n : String} {allowIntra : Bool} {table chains chain items : Value}
    {ws : List TableLine} (hn : name tree zone = .ok n) (hl : ChainLists chain items)
    (h : chainLines tree zone n allowIntra table chains chain items = .ok ws) :
    appended ws = (chainRules tree n chain items).map (table, ·) := by
  obtain ⟨entry, he, rfl⟩ := chainLines_ok h
  rw [appended_tag, List.filter_append, appendedRules_eq, filter_appendRules, ← appendedRules_eq,
    chainEntry_appended hn hl he]

/-- The lines of an ordinary zone append its rules, by table and chain. -/
theorem zoneLines_appended {rules : Value} {allowIntra : Bool} {zs : List TableLine}
    (hl : ZoneLists rules) (h : zoneLines tree zone rules allowIntra = .ok zs) :
    appended zs = zoneRules tree zone rules := by
  unfold zoneLines at h
  obtain ⟨n, hn, h⟩ := except_bind_eq_ok.mp h
  obtain ⟨tables, ht, h⟩ := except_bind_eq_ok.mp h
  unfold ZoneLists at hl
  unfold zoneRules
  rw [zoneName_of_name hn]
  rw [entriesOr_of_entries ht] at hl ⊢
  refine flatMapM_ok_view appended rfl appended_append h ?_
  rintro ⟨table, chains⟩ hmem ws hws
  obtain ⟨ces, hces, hws⟩ := except_bind_eq_ok.mp hws
  have hc := (hl _ hmem).2
  simp only [entriesOr_of_entries hces] at hc ⊢
  exact flatMapM_ok_view appended rfl appended_append hws fun ⟨chain, items⟩ hmc vs hvs =>
    chainLines_appended hn (hc _ hmc) hvs

/-- A table of the local zone: its one chain is `to`, whose destinations' rules
its lines append. -/
theorem localTable_appended {table chains : Value} {ms : List Value} {ws : List TableLine}
    (hk : KeyedTo 1 chains) (hc : ∀ c ∈ entriesOr chains, ChainLists c.1 c.2)
    (hms : chains.members = .ok ms)
    (h : ms.flatMapM (localChainLines tree (.str localZone) table chains) = .ok ws) :
    appended ws = (entriesOr chains).flatMap fun (chain, items) =>
      (chainRules tree (zoneName tree (.str localZone)) chain items).map (table, ·) := by
  have hp := localMembers_pairwise hk hms h
  cases ms with
  | nil =>
      rw [List.flatMapM_nil] at h
      cases h
      rw [entriesOr_nil_of_members hms]
      rfl
  | cons x rest =>
      rw [List.flatMapM_cons] at h
      obtain ⟨w, hw, h⟩ := except_bind_eq_ok.mp h
      obtain ⟨wr, hwr, h⟩ := except_bind_eq_ok.mp h
      cases h
      obtain ⟨rfl, toZones, htz, dl, hdl, rfl⟩ := localChainLines_ok hw
      -- a second chain would be `to` again, which the keys forbid
      obtain rfl : rest = [] := by
        cases rest with
        | nil => rfl
        | cons y rest =>
            rw [List.flatMapM_cons] at hwr
            obtain ⟨wy, hwy, -⟩ := except_bind_eq_ok.mp hwr
            obtain ⟨rfl, -⟩ := localChainLines_ok hwy
            simp at hp
      rw [List.flatMapM_nil] at hwr
      cases hwr
      -- so the chains are the one entry `to`, whose value `toZones` is
      obtain ⟨kvs, hce, -⟩ := child_ok htz
      obtain ⟨⟨k, v⟩, rfl, hk'⟩ :=
        List.map_eq_singleton_iff.mp (Except.ok.inj ((members_of_entries hce).symm.trans hms))
      obtain rfl : k = .str "to" := hk'
      have hv : v = toZones := by
        have := fieldOf_of_child htz
        simpa [fieldOf, entriesOr_of_entries hce, Value.lookup] using this
      subst hv
      rw [entriesOr_of_entries hce] at hc ⊢
      have hto := hc _ List.mem_cons_self
      simp only [ChainLists, Value.beq_str_iff, ↓reduceIte] at hto
      rw [List.append_nil, appended_tag, destinations_appended (name_local tree) hto hdl]
      simp [chainRules, zoneName_of_name (name_local tree)]

/-- The lines of the local zone append its rules, by table. -/
theorem localLines_appended {rules : Value} {zs : List TableLine} (hl : ZoneLists rules)
    (h : localLines tree (.str localZone) rules = .ok zs) :
    appended zs = zoneRules tree (.str localZone) rules := by
  unfold localLines at h
  obtain ⟨tables, ht, h⟩ := except_bind_eq_ok.mp h
  unfold ZoneLists at hl
  unfold zoneRules
  rw [entriesOr_of_entries ht] at hl ⊢
  refine flatMapM_ok_view appended rfl appended_append h ?_
  rintro ⟨table, chains⟩ hmem ws hws
  obtain ⟨ms, hms, hws⟩ := except_bind_eq_ok.mp hws
  obtain ⟨hkc, hc⟩ := hl _ hmem
  exact localTable_appended hkc hc hms hws

/-- The lines of the zones append each zone's rules, zone by zone. -/
theorem allLines_appended {zs : List TableLine}
    (hl : ∀ z ∈ entriesOr (fieldOf tree "zones"), ZoneLists (fieldOf z.2 "rules"))
    (h : allLines tree = .ok zs) :
    appended zs = (entriesOr (fieldOf tree "zones")).flatMap fun (zone, params) =>
      zoneRules tree zone (fieldOf params "rules") := by
  unfold allLines at h
  obtain ⟨zones, hz, h⟩ := except_bind_eq_ok.mp h
  obtain ⟨kvs, he, h⟩ := except_bind_eq_ok.mp h
  rw [← entriesOr_getD hz, entriesOr_of_entries he] at hl ⊢
  refine flatMapM_ok_view appended rfl appended_append h ?_
  rintro ⟨zone, params⟩ hmem ws hws
  obtain ⟨rules, hr, hcases⟩ := linesOf_ok hws
  -- the zone's rules are its field `rules`, read with no entries as fallback
  have hzl : ZoneLists rules := by
    have := hl _ hmem
    unfold ZoneLists at this ⊢
    rwa [entriesOr_getD hr]
  have hzr : zoneRules tree zone (fieldOf params "rules") = zoneRules tree zone rules := by
    simp only [zoneRules, entriesOr_getD hr]
  show appended ws = zoneRules tree zone (fieldOf params "rules")
  rw [hzr]
  rcases hcases with ⟨rfl, hzs⟩ | ⟨-, allowIntra, hzs⟩
  · exact localLines_appended hzl hzs
  · exact zoneLines_appended hzl hzs

end Zones

section Script

variable {tree : Value} {ls : List TableLine}

/-- A rule list read with no entries as fallback appends the field's rules. -/
theorem listLines_field_appended {k : String} {x : Value} (hl : ListsOf (fieldOf tree k))
    (hx : tree.getD k (.dict []) = .ok x) (h : listLines x = .ok ls) :
    appended ls = listedRules (fieldOf tree k) := by
  have he := entriesOr_getD hx
  have hlx : ListsOf x := by
    unfold ListsOf at hl ⊢
    rwa [he]
  rw [listLines_appended hlx h]
  simp only [listedRules, he]

/-- The rules that the lines of a configuration append are the configured
rules, in order: those of the helper chains, of `pre_default`, `default` and
`pre_zone`, and of the zones.  Every other line is a policy, a declaration or a
jump. -/
theorem appended_configLines (hw : RulesAsLists tree) (h : configLines tree = .ok ls) :
    appended ls = configuredRules tree := by
  obtain ⟨hlists, hzones⟩ := hw
  unfold configLines at h
  obtain ⟨ps, hps, h⟩ := except_bind_eq_ok.mp h
  obtain ⟨hs, hhs, h⟩ := except_bind_eq_ok.mp h
  obtain ⟨pdv, hpdv, h⟩ := except_bind_eq_ok.mp h
  obtain ⟨pd, hpd, h⟩ := except_bind_eq_ok.mp h
  obtain ⟨dv, hdv, h⟩ := except_bind_eq_ok.mp h
  obtain ⟨d, hd, h⟩ := except_bind_eq_ok.mp h
  obtain ⟨pzv, hpzv, h⟩ := except_bind_eq_ok.mp h
  obtain ⟨pz, hpz, h⟩ := except_bind_eq_ok.mp h
  obtain ⟨zs, hzs, h⟩ := except_bind_eq_ok.mp h
  cases h
  simp only [ruleListKeys, List.mem_cons, List.not_mem_nil, or_false, forall_eq_or_imp,
    forall_eq] at hlists
  obtain ⟨hlh, hlpd, hld, hlpz⟩ := hlists
  simp only [appended_append, policyLines_appended hps, helperLines_appended hlh hhs,
    listLines_field_appended hlpd hpdv hpd, listLines_field_appended hld hdv hd,
    listLines_field_appended hlpz hpzv hpz, allLines_appended hzones hzs, configuredRules,
    ruleListKeys, List.flatMap_cons, List.flatMap_nil, List.nil_append, List.append_nil,
    List.append_assoc]

/-- Lines of one table, read through a function of their lines, are the lines
of all tables read so, with the other tables' lines giving nothing. -/
theorem flatMap_inTable {β : Type} (F : Line → List β) (table : String) :
    ∀ ls : List TableLine, (inTable ls table).flatMap F =
      ls.flatMap fun l => if l.1 == .str table then F l.2 else []
  | [] => rfl
  | (t, l) :: ls => by
      rw [show (t, l) :: ls = [(t, l)] ++ ls from rfl, inTable_append, List.flatMap_append,
        List.flatMap_append, flatMap_inTable F table ls]
      cases ht : t == .str table <;> simp [inTable, ht]

theorem flatMapM_map {α β γ ε : Type} (m : α → β) (f : β → Except ε (List γ)) :
    ∀ xs : List α, (xs.map m).flatMapM f = xs.flatMapM (f ∘ m)
  | [] => rfl
  | x :: xs => by simp [List.flatMapM_cons, flatMapM_map m f xs]

/-- A run that ended normally gives its items. -/
theorem toExcept_ok {α : Type} {r : Run α} {xs : List α} (h : r.toExcept = .ok xs) : xs = r.items := by
  unfold Run.toExcept at h
  split at h
  · cases h
  · cases h
    rfl

/-- The section of a table: its header, the expansion of each line of that
table in order, and `COMMIT`. -/
theorem tableSection_ok {table : String} {sec : List String}
    (h : tableSection tree (ls.map TableLine.toValue) table = .ok sec) :
    sec = ("*" ++ table) :: (inTable ls table).flatMap (fun l => (expand tree (.str l.text)).items) ++
      ["COMMIT"] := by
  unfold tableSection at h
  obtain ⟨body, hbody, h⟩ := except_bind_eq_ok.mp h
  cases h
  rw [flatMapM_map] at hbody
  suffices hb : body = ls.flatMap fun l =>
      if l.1 == .str table then (expand tree (.str l.2.text)).items else [] by
    rw [hb, flatMap_inTable]
  refine flatMapM_ok_view id rfl (fun _ _ => rfl) hbody fun l _ zs hzs => ?_
  -- each line is read back as its table and its text
  obtain ⟨p, hp, hzs⟩ := except_bind_eq_ok.mp hzs
  cases hp
  dsimp only at hzs ⊢
  split at hzs
  · next ht =>
      rw [ht, if_pos rfl]
      exact toExcept_ok hzs
  · next ht =>
      cases hzs
      simp [ht]

/-- The restore script of a configuration lists, table by table, the header,
the expansion of each of the configuration's lines of that table in order, and
`COMMIT`. -/
theorem script_sections {script : List String} (h : ofConfig tree = .ok script) :
    ∃ ls, configLines tree = .ok ls ∧
      script = tables.flatMap fun t => ("*" ++ t) ::
        (inTable ls t).flatMap (fun l => (expand tree (.str l.text)).items) ++ ["COMMIT"] := by
  unfold ofConfig at h
  obtain ⟨ls, hls, h⟩ := except_bind_eq_ok.mp h
  unfold Restore.script at h
  obtain ⟨ms, hms, h⟩ := except_bind_eq_ok.mp h
  rw [Value.members_list] at hms
  cases hms
  exact ⟨ls, hls, flatMapM_ok_view id rfl (fun _ _ => rfl) h fun t _ sec hsec => tableSection_ok hsec⟩

/-- Every configured rule is expanded once, in its table's section, in script
order: the lines of the configuration append exactly the configured rules, and
the script lists each table's lines expanded, in order. -/
theorem configured_rules_in_script {script : List String} (hw : RulesAsLists tree)
    (h : ofConfig tree = .ok script) :
    ∃ ls, configLines tree = .ok ls ∧ appended ls = configuredRules tree ∧
      script = tables.flatMap fun t => ("*" ++ t) ::
        (inTable ls t).flatMap (fun l => (expand tree (.str l.text)).items) ++ ["COMMIT"] := by
  obtain ⟨ls, hls, hscript⟩ := script_sections h
  exact ⟨ls, hls, appended_configLines hw hls, hscript⟩

/-- A configuration with a helper chain, a rule list, and a zone `lan` whose
`to` rules list the default destination first, then `wan`. -/
def defaultFirst : Value := .dict [
  (.str "helper_chains", .dict [(.str "filter", .dict [
    (.str "LOG_DROP", .list [.str "-j LOG", .str "-j DROP"])])]),
  (.str "pre_default", .dict [(.str "filter", .dict [
    (.str "INPUT", .list [.str "-i lo -j ACCEPT"])])]),
  (.str "zones", .dict [
    (.str "lan", .dict [(.str "interfaces", .list [.str "eth0"]),
      (.str "rules", .dict [(.str "filter", .dict [(.str "to", .dict [
        (.str "default", .list [.str "-j LOG_DROP"]),
        (.str "wan", .list [.str "-j ACCEPT"])])])])]),
    (.str "wan", .dict [(.str "interfaces", .list [.str "eth1"])])])]

theorem defaultFirst_rules_in_script :
    RulesAsLists defaultFirst ∧ ∃ script, ofConfig defaultFirst = .ok script ∧
      ∃ ls, configLines defaultFirst = .ok ls ∧ appended ls = configuredRules defaultFirst ∧
        script = tables.flatMap fun t => ("*" ++ t) ::
          (inTable ls t).flatMap (fun l => (expand defaultFirst (.str l.text)).items) ++
            ["COMMIT"] := by
  have hw : RulesAsLists defaultFirst := by decide +kernel
  have ho : (ofConfig defaultFirst).map (fun _ => ()) = .ok () := by decide +kernel
  cases h : ofConfig defaultFirst with
  | error f =>
      rw [h] at ho
      cases ho
  | ok script => exact ⟨hw, script, rfl, configured_rules_in_script hw h⟩

/-- The default destination's rules come after `wan`'s, though `lan` lists the
default destination first. -/
theorem defaultFirst_default_rules_last :
    (ofConfig defaultFirst).map (List.filter fun s => s == "-A zone0_default -j LOG_DROP" ||
      s == "-A zone0_to_zone1 -j ACCEPT") =
      .ok ["-A zone0_to_zone1 -j ACCEPT", "-A zone0_default -j LOG_DROP"] := by
  decide +kernel

end Script

end Restore
end Firewall
