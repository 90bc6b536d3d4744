import Mathlib.Data.List.Forall2
import Firewall.Ipset.Script
import Firewall.Proofs.Rule.Objects

/-!
# Listing ipset scripts

The ipset script of a configuration lists every configured set in order: its
`create` line, then the `add` lines of its entries.

- `listing_eq_ok_iff`: the script is listed exactly when the ipsets mapping
  and every set's type and options can be read, and then every set contributes
  what `SetListed` says.  The entries of a set are listed until the first that
  fails, and the fault is reported instead of raised: the lines before it stay,
  together with what the failing entry produced, and the later entries are left
  out.  A set whose entries cannot be read lists its create line alone.
- `expandObjects_entry`: an entry is expanded as an iptables rule is, except
  that the value of its first reference is substituted as it is; only the
  values of the later references restrict the line to their family
  (`entryExpansion`).
- `listing_lines_of_expandable`: for entries that expand plainly, each set
  lists its create line and then every line of the `entryExpansion` of each of
  its entries, in order.

The listing is a fold over the sets; `foldlM_setStep` reads it as one block of
lines per set (`setBlock`).
-/

namespace Firewall
namespace Ipset

open Rule

section Blocks

variable (tree : Value)

/-- The entries of a set, if they can be read. -/
def entryValues (params : Value) : Except Fault (List Value) :=
  params.child "entries" >>= Value.members

/-- The lines one entry of the set `name` expands to. -/
def entryRun (name : String) (e : Value) : Run String :=
  Rule.expandObjects tree .other (.str ("add " ++ name ++ " " ++ e.text))

/-- The lines a set contributes to the script, with the fault that stopped its
entries, if one did. -/
def setBlock (set : Value × Value) : Except Fault (List String × Option Fault) :=
  (createLine set.1.text set.2).map fun c =>
    (c :: (entryLines tree set.1.text set.2).items, (entryLines tree set.1.text set.2).fault)

/-- One step of listing: the block of a set after what is listed so far. -/
def setStep (acc : Listing) (set : Value × Value) : Except Fault Listing :=
  (setBlock tree set).map fun b => ⟨acc.lines ++ b.1, acc.reports ++ b.2.toList⟩

variable {tree}

theorem entryLines_eq (name : String) (params : Value) :
    entryLines tree name params = match entryValues params with
      | .error f => Run.fail f
      | .ok es => Run.feed (entryRun tree name) es := rfl

theorem listing_eq : listing tree = tree.getD "ipsets" (.dict []) >>= fun sets =>
    sets.entries >>= fun kvs => kvs.foldlM (setStep tree) ⟨[], []⟩ := by
  unfold listing
  congr 1
  funext sets
  congr 1
  funext kvs
  congr 1
  funext acc set
  obtain ⟨name, params⟩ := set
  unfold setStep setBlock
  dsimp only
  cases createLine name.text params <;> rfl

/-- Listing from `acc` appends one block per set, in order. -/
theorem foldlM_setStep : ∀ (sets : List (Value × Value)) (acc L : Listing),
    sets.foldlM (setStep tree) acc = .ok L ↔
      ∃ blocks, List.Forall₂ (fun set b => setBlock tree set = .ok b) sets blocks ∧
        L = ⟨acc.lines ++ (blocks.map Prod.fst).flatten,
          acc.reports ++ blocks.flatMap fun b => b.2.toList⟩
  | [], acc, L => by
    simp only [List.foldlM_nil, List.forall₂_nil_left_iff, exists_eq_left, List.map_nil,
      List.flatten_nil, List.append_nil, List.flatMap_nil]
    constructor
    · intro h
      cases h
      rfl
    · intro h
      rw [h]
      rfl
  | set :: sets, acc, L => by
    rw [List.foldlM_cons]
    cases hb : setBlock tree set with
    | error f =>
      have hstep : setStep tree acc set = .error f := by simp [setStep, hb, Except.map]
      simp only [hstep, bind, Except.bind, reduceCtorEq, false_iff, not_exists, not_and]
      intro blocks hblocks
      obtain ⟨b, -, hfirst, -, -⟩ := List.forall₂_cons_left_iff.mp hblocks
      rw [hb] at hfirst
      cases hfirst
    | ok b =>
      have hstep :
          setStep tree acc set = .ok ⟨acc.lines ++ b.1, acc.reports ++ b.2.toList⟩ := by
        simp [setStep, hb, Except.map]
      simp only [hstep, bind, Except.bind]
      rw [foldlM_setStep sets]
      constructor
      · rintro ⟨blocks, hblocks, rfl⟩
        exact ⟨b :: blocks, .cons hb hblocks, by simp⟩
      · rintro ⟨blocks, hblocks, rfl⟩
        obtain ⟨b', blocks', hfirst, hrest, rfl⟩ := List.forall₂_cons_left_iff.mp hblocks
        rw [hb] at hfirst
        cases hfirst
        exact ⟨blocks', hrest, by simp⟩

/-- The script is listed exactly when the ipsets mapping and every set's
create line can be read; it is then the blocks of the sets, in order. -/
theorem listing_eq_ok_iff_blocks {L : Listing} :
    listing tree = .ok L ↔
      ∃ sets, (tree.getD "ipsets" (.dict []) >>= Value.entries) = .ok sets ∧
      ∃ blocks, List.Forall₂ (fun set b => setBlock tree set = .ok b) sets blocks ∧
        L = ⟨(blocks.map Prod.fst).flatten, blocks.flatMap fun b => b.2.toList⟩ := by
  rw [listing_eq]
  cases tree.getD "ipsets" (.dict []) with
  | error f => simp [bind, Except.bind]
  | ok sets =>
    cases hkvs : sets.entries with
    | error f => simp [hkvs, bind, Except.bind]
    | ok kvs =>
      simp only [hkvs, bind, Except.bind, Except.ok.injEq, exists_eq_left']
      rw [foldlM_setStep]
      simp

end Blocks

section Truncation

/-- How a set is listed after its create line: the lines of its entries in
turn, until the first fault, which the block ends with.  A set whose entries
cannot be read has no more lines; an entry that fails keeps what it produced
before its fault, and the entries after it are left out. -/
inductive SetListed (tree : Value) (name : String) (params : Value) (create : String) :
    List String × Option Fault → Prop
  | unread {f : Fault} : entryValues params = .error f →
      SetListed tree name params create ([create], some f)
  | complete {es : List Value} : entryValues params = .ok es →
      (∀ e ∈ es, (entryRun tree name e).fault = none) →
      SetListed tree name params create
        (create :: es.flatMap fun e => (entryRun tree name e).items, none)
  | stopped {pre post : List Value} {e : Value} {f : Fault} :
      entryValues params = .ok (pre ++ e :: post) →
      (∀ e' ∈ pre, (entryRun tree name e').fault = none) →
      (entryRun tree name e).fault = some f →
      SetListed tree name params create
        (create :: ((pre.flatMap fun e' => (entryRun tree name e').items) ++
          (entryRun tree name e).items), some f)

variable {tree : Value}

/-- `SetListed` describes the block of a set, and nothing else. -/
theorem setListed_iff {name : String} {params : Value} {create : String}
    {b : List String × Option Fault} :
    SetListed tree name params create b ↔
      b = (create :: (entryLines tree name params).items, (entryLines tree name params).fault) := by
  rw [entryLines_eq]
  constructor
  · rintro (⟨hf⟩ | ⟨hes, hok⟩ | ⟨hes, hpre, he⟩)
    · simp [hf, Run.fail]
    · simp [hes, Run.feed_ok _ _ hok, List.flatMap]
    · simp [hes, Run.feed_append_of_ok _ hpre, Run.feed_cons_of_fault _ he]
  · rintro rfl
    cases hes : entryValues params with
    | error f => exact .unread hes
    | ok es =>
      rcases Run.feed_cases (entryRun tree name) es with
        ⟨hok, hrun⟩ | ⟨pre, e, post, f, rfl, hpre, he, hrun⟩
      · simp only [hrun, Run.ofList]
        exact .complete hes hok
      · simp only [hrun]
        exact .stopped hes hpre he

/-- The ipset script is listed exactly when the ipsets mapping and every set's
type and options can be read.  It is then, set by set in order, the create
line and the lines of the entries as far as they could be expanded: each set's
entries stop at the first that fails, whose fault is reported and not raised,
so that the entries after it are left out of the script. -/
theorem listing_eq_ok_iff {L : Listing} :
    listing tree = .ok L ↔
      ∃ sets, (tree.getD "ipsets" (.dict []) >>= Value.entries) = .ok sets ∧
      ∃ blocks, List.Forall₂ (fun (set : Value × Value) b =>
          ∃ c, createLine set.1.text set.2 = .ok c ∧ SetListed tree set.1.text set.2 c b)
          sets blocks ∧
        L = ⟨(blocks.map Prod.fst).flatten, blocks.flatMap fun b => b.2.toList⟩ := by
  rw [listing_eq_ok_iff_blocks]
  -- a block of `setBlock` is one that `SetListed` describes, after the create line
  have hblock : ∀ (set : Value × Value) b, setBlock tree set = .ok b ↔
      ∃ c, createLine set.1.text set.2 = .ok c ∧ SetListed tree set.1.text set.2 c b := by
    intro set b
    unfold setBlock
    cases createLine set.1.text set.2 with
    | error f => simp [Except.map]
    | ok c =>
      simp only [Except.map, Except.ok.injEq, exists_eq_left', setListed_iff]
      exact eq_comm
  simp only [hblock]

/-- The configuration of the set `s`, whose second entry names an object that
is not defined. -/
def missingObjectSets : Value :=
  .dict [(.str "ipsets", .dict [(.str "s", .dict [(.str "type", .str "hash:ip"),
    (.str "entries", .list [.str "1.2.3.4", .str "${u}", .str "5.6.7.8"])])])]

/-- An entry that names an undefined object is reported, not raised, and the
set's later entries are left out of the script. -/
theorem missingObject_truncates_set :
    (listing missingObjectSets).toOption.map Listing.lines =
      some ["create s hash:ip", "add s 1.2.3.4"] := by
  decide +kernel

end Truncation

section Entries

variable (objects : String → List String)

/-- The lines an ipset entry expands to, read statically: every choice of one
value per reference, the leftmost varying slowest, filled in.  The value of
the first reference is substituted as it is; the values of the later ones drop
the line or prefix it with their family as in an iptables rule. -/
def entryExpansion (s : String) : List String :=
  (choicesOver objects (readRefs s)).filterMap fun c =>
    outcome (markedV4 s) (markedV6 s) (c.tail.any isV4) (c.tail.any isV6)
      (fillOver (readRefs s) c s)

variable {tree : Value} {objects}

/-- An ipset entry is expanded as an iptables rule, except that the value of its
first reference restricts nothing. -/
theorem expandObjects_entry {s : String} (h : Expandable tree objects s) :
    expandObjects tree .other (.str s) = Run.ofList (entryExpansion objects s) := by
  have hnone : clashes (markedV4 s) (markedV6 s) false false = false := by simp [clashes]
  rw [expandObjects, show depthLimit = 999 + 1 from rfl, expandObjectsWith]
  cases hr : Reference.find? '$' s with
  | none =>
    simp [entryExpansion, readRefs_of_none hr, choicesOver, outcome, hnone, familyPrefix]
  | some r =>
    have hrefs := readRefs_of_some hr
    have hmem : r ∈ readRefs s := hrefs ▸ List.mem_cons_self
    obtain ⟨val, hpath, hlist⟩ := path_of_objectTexts (h.values r hmem)
    have hfuel : (readRefs (String.ofList r.after)).length < 999 := by
      have := h.shallow
      rw [hrefs, List.length_cons] at this
      exact Nat.lt_of_succ_lt_succ this
    simp only [hpath]
    rw [hlist, entryExpansion, hrefs, choicesOver, List.filterMap_flatMap]
    apply feed_map_str
    intro v hv
    -- after the first value, the rest is expanded as an iptables rule with no family yet
    have hrest := expandObjectsWith_filling 999 (h.filling.next hr hv) hfuel hnone
    simp only [familyPrefix, Bool.false_and, Bool.false_eq_true, if_false, String.empty_append,
      Bool.false_or] at hrest
    simp only [Reference.fill, Value.text_str, List.filterMap_map]
    rw [hrest]
    congr 2

/-- The lines of a set whose entries expand plainly, as `entryExpansion` reads them. -/
theorem entryLines_items_of_expandable {name : String} {params : Value}
    (h : ∀ es, entryValues params = .ok es → ∀ e ∈ es,
      Expandable tree objects ("add " ++ name ++ " " ++ e.text)) :
    (entryLines tree name params).items =
      ((entryValues params).toOption.getD []).flatMap fun e =>
        entryExpansion objects ("add " ++ name ++ " " ++ e.text) := by
  rw [entryLines_eq]
  cases hes : entryValues params with
  | error f => rfl
  | ok es =>
    have hrun : ∀ e ∈ es, entryRun tree name e =
        Run.ofList (entryExpansion objects ("add " ++ name ++ " " ++ e.text)) :=
      fun e he => expandObjects_entry (h es hes e he)
    dsimp only
    rw [Run.feed_ok _ _ (fun e he => by rw [hrun e he]; rfl)]
    simp only [Except.toOption, Option.getD_some, List.flatMap]
    congr 1
    exact List.map_congr_left fun e he => by rw [hrun e he]; rfl

/-- Where every entry expands plainly, the ipset script lists each set's create
line, then every line its entries expand to, in order.  Only the values of an
entry's second and later references restrict its lines to their family, so an
address there prefixes the line with `-4` or `-6`, or drops it. -/
theorem listing_lines_of_expandable {sets : List (Value × Value)} {L : Listing}
    (hsets : (tree.getD "ipsets" (.dict []) >>= Value.entries) = .ok sets)
    (hentries : ∀ set ∈ sets, ∀ es, entryValues set.2 = .ok es → ∀ e ∈ es,
      Expandable tree objects ("add " ++ set.1.text ++ " " ++ e.text))
    (h : listing tree = .ok L) :
    ∃ blocks, List.Forall₂ (fun (set : Value × Value) b =>
        ∃ c, createLine set.1.text set.2 = .ok c ∧
          b = c :: ((entryValues set.2).toOption.getD []).flatMap fun e =>
            entryExpansion objects ("add " ++ set.1.text ++ " " ++ e.text)) sets blocks ∧
      L.lines = blocks.flatten := by
  obtain ⟨sets', hsets', blocks, hblocks, rfl⟩ := listing_eq_ok_iff_blocks.mp h
  rw [hsets] at hsets'
  cases hsets'
  refine ⟨blocks.map Prod.fst, List.forall₂_map_right_iff.mpr
    (((List.forall₂_and_left _ _).mpr ⟨hentries, hblocks⟩).imp fun set b hb => ?_), rfl⟩
  obtain ⟨hplain, hb⟩ := hb
  unfold setBlock at hb
  cases hc : createLine set.1.text set.2 with
  | error f => simp [hc, Except.map] at hb
  | ok c =>
    simp only [hc, Except.map, Except.ok.injEq] at hb
    subst hb
    exact ⟨c, rfl, by rw [entryLines_items_of_expandable hplain]⟩

/-- A set of type `hash:ip` whose one entry names the object `a`, then the object `b`. -/
def pairEntrySet : Value :=
  .dict [(.str "type", .str "hash:ip"), (.str "entries", .list [.str "${a} ${b}"])]

/-- The set `s` of `pairEntrySet`, with `a` holding `x` and `b` an IPv4 address. -/
def pairEntryConfig : Value :=
  .dict [(.str "objects", .dict [(.str "a", .str "x"), (.str "b", .str "1.2.3.4")]),
    (.str "ipsets", .dict [(.str "s", pairEntrySet)])]

/-- The texts of each object of `pairEntryConfig`. -/
def pairEntryTexts (key : String) : List String := (objectTexts pairEntryConfig key).getD []

theorem pairEntry_tagged_by_second_value :
    (pairEntryConfig.getD "ipsets" (.dict []) >>= Value.entries) =
        .ok [(.str "s", pairEntrySet)] ∧
      (∀ set ∈ [((.str "s" : Value), pairEntrySet)], ∀ es, entryValues set.2 = .ok es →
        ∀ e ∈ es,
          Expandable pairEntryConfig pairEntryTexts ("add " ++ set.1.text ++ " " ++ e.text)) ∧
      listing pairEntryConfig = .ok ⟨["create s hash:ip", "-4 add s x 1.2.3.4"], []⟩ ∧
      ∃ blocks, List.Forall₂ (fun (set : Value × Value) b =>
          ∃ c, createLine set.1.text set.2 = .ok c ∧
            b = c :: ((entryValues set.2).toOption.getD []).flatMap fun e =>
              entryExpansion pairEntryTexts ("add " ++ set.1.text ++ " " ++ e.text))
          [((.str "s" : Value), pairEntrySet)] blocks ∧
        ["create s hash:ip", "-4 add s x 1.2.3.4"] = blocks.flatten := by
  have hsets : (pairEntryConfig.getD "ipsets" (.dict []) >>= Value.entries) =
      .ok [(.str "s", pairEntrySet)] := rfl
  have hentries : ∀ set ∈ [((.str "s" : Value), pairEntrySet)], ∀ es,
      entryValues set.2 = .ok es → ∀ e ∈ es,
        Expandable pairEntryConfig pairEntryTexts ("add " ++ set.1.text ++ " " ++ e.text) := by
    intro set hset es hes e he
    rw [List.mem_singleton] at hset
    subst hset
    have hes : es = [.str "${a} ${b}"] := (Except.ok.inj hes).symm
    subst hes
    rw [List.mem_singleton] at he
    subst he
    exact ⟨by decide +kernel, by decide +kernel, by decide +kernel, by decide +kernel,
      by decide +kernel, by decide +kernel⟩
  have hlist :
      listing pairEntryConfig = .ok ⟨["create s hash:ip", "-4 add s x 1.2.3.4"], []⟩ := by
    have h : (listing pairEntryConfig).toOption =
        some ⟨["create s hash:ip", "-4 add s x 1.2.3.4"], []⟩ := by
      decide +kernel
    cases hl : listing pairEntryConfig with
    | error f => simp [hl, Except.toOption] at h
    | ok L => simpa [hl, Except.toOption] using h
  exact ⟨hsets, hentries, hlist, listing_lines_of_expandable hsets hentries hlist⟩

end Entries

end Ipset
end Firewall
