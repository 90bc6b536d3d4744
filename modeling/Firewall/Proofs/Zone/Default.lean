import Firewall.Proofs.Zone.Order
import Firewall.Proofs.Zone.Dispatch

/-!
# The default destination's jump

A zone's `to` rules may name the destination `default`, whose chain takes
what the zone's other destinations did not.  The jump into it leaves the
zone's input and forward chains, and for the local zone `OUTPUT`, and it must
come after every other line that adds to the same chain: a line after it would
only see what the default chain let through.

`DefaultLast X ls` says that in `ls`, every line after a jump into a zone's
default chain that adds to the chain the jump leaves is allowed by `X`.  It is
glued along concatenations (`DefaultLast.append`) and traversals
(`flatMapM_defaultLast`), so each level of the zone rules is checked on its
own, and only the chains that the levels add to are compared between them.

Main statement (`default_jump_last`): in every table of a keyed
configuration, no zone line adds to the chain of a default jump after it,
except the jumps from `OUTPUT` into the output chains of ordinary zones.  These
can only follow the local zone's default jump, which leaves `OUTPUT`; they do
when a zone with `OUTPUT` rules is listed after the local zone
(`hostThenLan_default_before_dispatch`).
-/

namespace Firewall

namespace Rule

/-- Whether a line adds to a chain: a rule appended to it, or a jump from it. -/
def Line.addsTo (c : String) : Line → Prop
  | .jump c' _ _ _ | .append c' _ => c' = c
  | .policy _ _ | .declare _ => False

@[simp] theorem addsTo_jump {c c' t : String} {g : Option Guard} {cm : Option String} :
    (Line.jump c' g cm t).addsTo c ↔ c' = c := Iff.rfl

@[simp] theorem addsTo_append {c c' r : String} : (Line.append c' r).addsTo c ↔ c' = c := Iff.rfl

@[simp] theorem not_addsTo_declare {c c' : String} : ¬ (Line.declare c').addsTo c := id

end Rule

namespace Zone

open Rule

section Glue

/-- After a jump from `c` into the default chain of a zone named `n`, every
line that adds to `c` is allowed by `X`. -/
def DefaultLast (X : String → Line → Prop) (ls : List Line) : Prop :=
  ∀ pre post c g cm n, ls = pre ++ .jump c g cm (n ++ "_" ++ defaultZone) :: post →
    '_' ∉ n.toList → ∀ l ∈ post, l.addsTo c → X c l

/-- Some line jumps from `c` into the default chain of a zone. -/
def HasDefaultJump (ls : List Line) (c : String) : Prop :=
  ∃ g cm n, '_' ∉ n.toList ∧ .jump c g cm (n ++ "_" ++ defaultZone) ∈ ls

variable {X : String → Line → Prop} {A B ls : List Line} {c : String}

theorem defaultLast_of_none (h : ∀ c, ¬ HasDefaultJump ls c) : DefaultLast X ls := by
  intro pre post c g cm n hs hn
  exact absurd ⟨g, cm, n, hn, by simp [hs]⟩ (h c)

theorem DefaultLast.singleton (l : Line) : DefaultLast X [l] := by
  intro pre post c g cm n hs _ l' hl'
  have hlen := congrArg List.length hs
  simp only [List.length_append, List.length_cons, List.length_nil] at hlen
  -- the jump is the only line, so nothing comes after it
  rw [List.length_eq_zero_iff.mp (by omega : post.length = 0)] at hl'
  cases hl'

/-- Two pieces, each with its default jumps last, where the second adds to no
chain that a default jump of the first leaves unless `X` allows it. -/
theorem DefaultLast.append (h : DefaultLast X A) (h' : DefaultLast X B)
    (hx : ∀ c, HasDefaultJump A c → ∀ l ∈ B, l.addsTo c → X c l) :
    DefaultLast X (A ++ B) := by
  intro pre post c g cm n hs hn l hl hadd
  rcases List.append_eq_append_iff.mp hs with ⟨a', rfl, hb⟩ | ⟨c', ha, hc'⟩
  · -- the jump lies in the second piece
    exact h' a' post c g cm n hb hn l hl hadd
  · cases c' with
    | nil => exact h' [] post c g cm n (by simpa using hc'.symm) hn l hl hadd
    | cons x c'' =>
        obtain ⟨rfl, rfl⟩ := List.cons.inj hc'
        rcases List.mem_append.mp hl with hl | hl
        · exact h pre c'' c g cm n (by simpa using ha) hn l hl hadd
        · exact hx c ⟨g, cm, n, hn, by simp [ha]⟩ l hl hadd

theorem HasDefaultJump.append_iff : HasDefaultJump (A ++ B) c ↔ HasDefaultJump A c ∨
    HasDefaultJump B c := by
  simp only [HasDefaultJump, List.mem_append]
  constructor
  · rintro ⟨g, cm, n, hn, hA | hB⟩
    exacts [.inl ⟨g, cm, n, hn, hA⟩, .inr ⟨g, cm, n, hn, hB⟩]
  · rintro (⟨g, cm, n, hn, hA⟩ | ⟨g, cm, n, hn, hB⟩)
    exacts [⟨g, cm, n, hn, .inl hA⟩, ⟨g, cm, n, hn, .inr hB⟩]

/-- Lines without jumps into default chains, among them appended rules. -/
theorem no_default_of_appends (h : ∀ l ∈ ls, ∃ t r, l = .append t r) : ¬ HasDefaultJump ls c := by
  rintro ⟨g, cm, n, -, hj⟩
  obtain ⟨t, r, he⟩ := h _ hj
  cases he

/-- A traversal whose steps give, through the view `v`, lines with their
default jumps last, where a later step adds to a chain that an earlier one's
default jump leaves only as `X` allows, gives lines with their default jumps
last. -/
theorem flatMapM_defaultLast {α β ε : Type} {f : α → Except ε (List β)} {v : List β → List Line}
    (hv0 : v [] = []) (hv : ∀ a b, v (a ++ b) = v a ++ v b) {R : α → α → Prop} :
    ∀ {xs : List α} {ys : List β}, xs.flatMapM f = .ok ys → xs.Pairwise R →
      (∀ x ∈ xs, ∀ zs, f x = .ok zs → DefaultLast X (v zs)) →
      (∀ x ∈ xs, ∀ y ∈ xs, R x y → ∀ zx zy, f x = .ok zx → f y = .ok zy →
        ∀ c, HasDefaultJump (v zx) c → ∀ l ∈ v zy, l.addsTo c → X c l) →
      DefaultLast X (v ys)
  | [], ys, h, _, _, _ => by
      rw [List.flatMapM_nil] at h
      cases h
      rw [hv0]
      exact defaultLast_of_none fun _ ⟨_, _, _, _, hj⟩ => nomatch hj
  | x :: xs, ys, h, hR, hstep, hsep => by
      rw [List.flatMapM_cons] at h
      obtain ⟨zs, hx, h⟩ := except_bind_eq_ok.mp h
      obtain ⟨rest, hrest, h⟩ := except_bind_eq_ok.mp h
      cases h
      obtain ⟨hxR, hR⟩ := List.pairwise_cons.mp hR
      rw [hv]
      refine (hstep x List.mem_cons_self zs hx).append
        (flatMapM_defaultLast hv0 hv hrest hR (fun y hy => hstep y (List.mem_cons_of_mem _ hy))
          (fun y hy y' hy' => hsep y (List.mem_cons_of_mem _ hy) y' (List.mem_cons_of_mem _ hy')))
        ?_
      -- a line of the rest comes from a later step
      intro c hc l hl hadd
      obtain ⟨y, hy, zy, hzy, hly⟩ := mem_view_of_flatMapM_ok hv0 hv hrest l hl
      exact hsep x List.mem_cons_self y (List.mem_cons_of_mem _ hy) (hxR y hy) zs zy hx hzy c hc
        l hly hadd

end Glue

section Names

variable {n n' m : String}

theorem joined_ne_default {s : String} (hn : '_' ∉ n.toList) (hn' : '_' ∉ n'.toList)
    (hs : s ≠ defaultZone) : n ++ "_" ++ s ≠ n' ++ "_" ++ defaultZone :=
  fun h => hs (append_underscore_inj hn hn' h).2

theorem to_chain_ne_default (hn : '_' ∉ n.toList) (hn' : '_' ∉ n'.toList) :
    n ++ "_to_" ++ m ≠ n' ++ "_" ++ defaultZone := by
  rw [append_underscore_to]
  exact joined_ne_default hn hn' (to_ne_default m)

/-- A built-in chain is no zone's chain: it holds no `_`. -/
theorem entryChain_ne_joined {c : String} (hc : c ∈ entryChains) (s : String) :
    c ≠ n ++ "_" ++ s :=
  fixed_ne_joined (entryChains_fixed hc) n s

theorem entryChain_ne_default {c : String} (hc : c ∈ entryChains) : c ≠ defaultZone := by
  simp only [entryChains, List.mem_cons, List.not_mem_nil, or_false] at hc
  rcases hc with rfl | rfl | rfl | rfl | rfl <;> decide

end Names

section Destinations

variable {tree zone : Value} {n target : String} {tl : Option String} {ls : List Line}
  {X : String → Line → Prop} {c : String}

/-- The default destination's chain: entered from `target`, then from the
host's chain, then given its rules, none of which adds to `target` or to the
host's chain. -/
theorem defaultChain_defaultLast {rules : Value} (h : defaultChain n target tl rules = .ok ls)
    (ht : target ≠ n ++ "_" ++ defaultZone)
    (htl : ∀ t ∈ tl, t ≠ target ∧ t ≠ n ++ "_" ++ defaultZone) : DefaultLast X ls := by
  obtain ⟨ap, hap, rfl⟩ := defaultChain_cases h
  have hrs := appendAll_ok hap
  have happs : ∀ l ∈ ap, ∃ t r, l = .append t r := fun l hl => by
    obtain ⟨r, rfl⟩ := hrs l hl
    exact ⟨_, r, rfl⟩
  -- the host's jump, if any, is a single line
  have hhost : DefaultLast X (tl.toList.map fun c => .jump c none none (n ++ "_" ++ defaultZone)) := by
    cases tl with
    | none => exact defaultLast_of_none fun _ ⟨_, _, _, _, hj⟩ => nomatch hj
    | some t => exact DefaultLast.singleton _
  refine (((DefaultLast.singleton _).append (DefaultLast.singleton _) ?_).append hhost ?_).append
    (defaultLast_of_none fun _ => no_default_of_appends happs) ?_
  · rintro c ⟨g, cm, n', -, hj⟩
    simp at hj
  · -- only `target` has a default jump in the first two lines
    rintro c ⟨g, cm, n', -, hj⟩ l hl hadd
    simp only [List.cons_append, List.nil_append, List.mem_cons, reduceCtorEq, Line.jump.injEq,
      List.not_mem_nil, or_false, false_or] at hj
    obtain ⟨rfl, -⟩ := hj
    cases tl with
    | none => cases hl
    | some t =>
        simp only [Option.toList_some, List.map_cons, List.map_nil, List.mem_singleton] at hl
        subst hl
        exact absurd (addsTo_jump.mp hadd) (htl t rfl).1
  · -- the rules add to the default chain only
    intro c hc l hl hadd
    obtain ⟨r, rfl⟩ := hrs l hl
    have hsrc : c = target ∨ tl = some c := by
      obtain ⟨g, cm, n', -, hj⟩ := hc
      simp only [List.cons_append, List.nil_append, List.mem_cons, reduceCtorEq,
        Line.jump.injEq, List.mem_map, Option.mem_toList, false_or] at hj
      rcases hj with ⟨rfl, -⟩ | ⟨t, ht', rfl, -⟩
      · exact .inl rfl
      · exact .inr ht'
    rw [addsTo_append] at hadd
    rcases hsrc with rfl | rfl
    · exact absurd hadd.symm ht
    · exact absurd hadd.symm (htl c rfl).2

/-- A destination's lines jump into its own chain, no default chain. -/
theorem destination_no_default {dest rules : Value} (hn : '_' ∉ n.toList)
    (h : destination tree zone n target tl dest rules = .ok ls) : ¬ HasDefaultJump ls c := by
  rintro ⟨g, cm, n', hn', hj⟩
  obtain ⟨m, -, -, ht, -⟩ := destination_jump h hj
  exact to_chain_ne_default hn hn' ht.symm

/-- A zone's `to` rules: the destinations' chains, then the default chain. -/
theorem destinations_defaultLast {toZones : Value} (hn : name tree zone = .ok n)
    (h : destinations tree zone target tl toZones = .ok ls)
    (ht : target ≠ n ++ "_" ++ defaultZone)
    (htl : ∀ t ∈ tl, t ≠ target ∧ t ≠ n ++ "_" ++ defaultZone) : DefaultLast X ls := by
  obtain ⟨entries, -, listed, hlisted, hdl⟩ := destinations_cases h hn
  have hnone : ∀ c, ¬ HasDefaultJump listed c := by
    rintro c ⟨g, cm, n', hn', hj⟩
    obtain ⟨⟨dest, rules⟩, -, zs, hzs, hj⟩ := mem_of_flatMapM_ok hlisted hj
    exact destination_no_default (underscore_not_mem_name hn) hzs ⟨g, cm, n', hn', hj⟩
  rcases hdl with rfl | ⟨rules, dc, hdc, rfl⟩
  · exact defaultLast_of_none hnone
  · exact (defaultLast_of_none hnone).append (defaultChain_defaultLast hdc ht htl)
      fun c hc => absurd hc (hnone c)

/-- The default jumps of a zone's `to` rules leave `target` or the host's chain. -/
theorem destinations_default_source {toZones : Value} (hn : name tree zone = .ok n)
    (h : destinations tree zone target tl toZones = .ok ls) (hc : HasDefaultJump ls c) :
    c = target ∨ tl = some c := by
  obtain ⟨g, cm, n', hn', hj⟩ := hc
  rcases destinations_jump h hn hj with ⟨dest, m, -, -, ht, -⟩ | ⟨-, -, hc⟩
  · exact absurd ht.symm (to_chain_ne_default (underscore_not_mem_name hn) hn')
  · exact hc

/-- The lines of a zone's `to` rules add to `target`, to the host's chain, or
to chains of the zone. -/
theorem destinations_addsTo {toZones : Value} {l : Line} (hn : name tree zone = .ok n)
    (h : destinations tree zone target tl toZones = .ok ls) (hl : l ∈ ls) (hadd : l.addsTo c) :
    c = target ∨ tl = some c ∨ ∃ s, c = n ++ "_" ++ s := by
  obtain ⟨entries, -, listed, hlisted, hdl⟩ := destinations_cases h hn
  -- the line belongs to a destination's chain or to the default chain
  have hmem : l ∈ listed ∨ ∃ rules dc, defaultChain n target tl rules = .ok dc ∧ l ∈ dc := by
    rcases hdl with rfl | ⟨rules, dc, hdc, rfl⟩
    · exact .inl hl
    · exact (List.mem_append.mp hl).imp id fun hl => ⟨rules, dc, hdc, hl⟩
  rcases hmem with hl | ⟨rules, dc, hdc, hl⟩
  · obtain ⟨⟨dest, rules⟩, -, zs, hzs, hl⟩ := mem_of_flatMapM_ok hlisted hl
    rcases destination_cases hzs with rfl | ⟨m, -, -, entry, ap, hap, rfl, hentry⟩
    · cases hl
    rcases List.mem_append.mp hl with hl | hl
    · rcases hentry with ⟨-, c', rfl, rfl⟩ | ⟨-, rfl⟩ <;>
        simp only [outbound, List.mem_cons, List.not_mem_nil, or_false] at hl <;>
        rcases hl with rfl | rfl
      · exact absurd hadd not_addsTo_declare
      · exact .inr (.inl (congrArg some (addsTo_jump.mp hadd)))
      · exact absurd hadd not_addsTo_declare
      · exact .inl (addsTo_jump.mp hadd).symm
    · obtain ⟨r, rfl⟩ := appendAll_ok hap l hl
      exact .inr (.inr ⟨"to_" ++ m, (addsTo_append.mp hadd).symm.trans (append_underscore_to n m)⟩)
  · obtain ⟨ap, hap, rfl⟩ := defaultChain_cases hdc
    simp only [List.cons_append, List.nil_append, List.mem_cons, List.mem_append, List.mem_map,
      Option.mem_toList] at hl
    rcases hl with rfl | rfl | (⟨t, ht, rfl⟩ | hl)
    · exact absurd hadd not_addsTo_declare
    · exact .inl (addsTo_jump.mp hadd).symm
    · exact .inr (.inl (ht.trans (congrArg some (addsTo_jump.mp hadd))))
    · obtain ⟨r, rfl⟩ := appendAll_ok hap l hl
      exact .inr (.inr ⟨defaultZone, (addsTo_append.mp hadd).symm⟩)

end Destinations

section Chains

variable {tree zone : Value} {n : String} {allowIntra : Bool} {chains chain items : Value}
  {entry : List Line} {X : String → Line → Prop} {c : String}

/-- A line of an ordinary zone that enters one of the zone's chains from the
built-in chain of the same name, guarded by the zone's interfaces: inbound
for `PREROUTING`, `INPUT` and `FORWARD`, outbound for `OUTPUT` and
`POSTROUTING`. -/
def EntersFrom (zone : Value) (n c : String) (l : Line) : Prop :=
  ((c = "PREROUTING" ∨ c = "INPUT" ∨ c = "FORWARD") ∧
      l = .jump c (some (.inbound zone.text)) none (n ++ "_" ++ c)) ∨
    ((c = "OUTPUT" ∨ c = "POSTROUTING") ∧
      l = .jump c (some (.outbound zone.text)) none (n ++ "_" ++ c))

/-- The rules of a `to` chain are a mapping of destinations, so none of them is
appended to the zone's forward chain. -/
theorem appendedRules_of_entries {kvs : List (Value × Value)} (h : items.entries = .ok kvs) :
    appendedRules n chain items = [] := by
  unfold Value.entries Value.mapping? at h
  unfold appendedRules
  split
  · next xs hu =>
      rw [hu] at h
      cases h
  · rfl

/-- The destinations of a zone's `to` rules are a mapping. -/
theorem destinations_entries {target : String} {tl : Option String} {dl : List Line}
    (hn : name tree zone = .ok n) (h : destinations tree zone target tl items = .ok dl) :
    ∃ kvs, items.entries = .ok kvs := by
  obtain ⟨entries, he, -⟩ := destinations_cases h hn
  exact ⟨entries, he⟩

theorem forward_addsTo {t : String} {l : Line} (hl : l ∈ forward zone t allowIntra)
    (hadd : l.addsTo c) : (c = "FORWARD" ∧ l = .jump c (some (.inbound zone.text)) none t) ∨
      c = t := by
  cases allowIntra <;>
    simp only [forward, inbound, Bool.false_eq_true, if_false, if_true, List.append_nil,
      List.cons_append, List.nil_append, List.mem_cons, List.not_mem_nil, or_false] at hl <;>
    rcases hl with rfl | rfl | rfl <;> simp_all

/-- A line entering a zone's chain from a built-in chain is no default jump. -/
theorem EntersFrom.not_default {l : Line} {g : Option Guard} {cm : Option String} {n' : String}
    (hn : '_' ∉ n.toList) (hn' : '_' ∉ n'.toList) (he : EntersFrom zone n c l)
    (hl : l = .jump c g cm (n' ++ "_" ++ defaultZone)) : False := by
  subst hl
  have hc : c ∈ entryChains := by
    simp only [entryChains, List.mem_cons, List.not_mem_nil, or_false]
    rcases he with ⟨hc, -⟩ | ⟨hc, -⟩ <;> tauto
  rcases he with ⟨-, he⟩ | ⟨-, he⟩ <;>
    exact joined_ne_default hn hn' (entryChain_ne_default hc) (Line.jump.inj he).2.2.2.symm

/-- Lines whose jumps go to `ACCEPT` or to chains of the zone named `n` other
than its default chain have no default jump. -/
theorem no_default_of_targets {ls : List Line} (hn : '_' ∉ n.toList)
    (h : ∀ c g cm t, Line.jump c g cm t ∈ ls →
      t = "ACCEPT" ∨ ∃ s, s ≠ defaultZone ∧ t = n ++ "_" ++ s) :
    ¬ HasDefaultJump ls c := by
  rintro ⟨g, cm, n', hn', hj⟩
  rcases h _ _ _ _ hj with ht | ⟨s, hs, ht⟩
  · exact fixed_ne_joined (by decide) n' defaultZone ht.symm
  · exact joined_ne_default hn hn' hs ht.symm

/-- The chains that the lines of one chain of an ordinary zone's rules add
to: for a built-in chain, that chain's own chain of the zone, or the
built-in chain itself when entering it; for `to`, chains of the zone, or the
built-in chains when entering them. -/
theorem chainEntry_addsTo {l : Line} (hn : name tree zone = .ok n)
    (h : chainEntry tree zone n allowIntra chains chain items = .ok entry)
    (hl : l ∈ entry ++ appendedRules n chain items) (hadd : l.addsTo c) :
    (∃ s, chain = .str s ∧ s ∈ entryChains ∧
        (c = n ++ "_" ++ s ∨ (c = s ∧ EntersFrom zone n c l))) ∨
      (chain = .str "to" ∧ ((∃ s, c = n ++ "_" ++ s) ∨ EntersFrom zone n c l)) := by
  rcases chainEntry_cases h with ⟨c', hc', rfl, rfl⟩ | ⟨rfl, rfl⟩ | ⟨rfl, -, dl, hdl, rfl⟩ |
    ⟨c', hc', rfl, rfl⟩
  · -- `PREROUTING` and `INPUT`: the rules go to the zone's chain of that name
    simp only [List.mem_cons, List.not_mem_nil, or_false] at hc'
    refine .inl ⟨c', rfl, by simp [entryChains]; tauto, ?_⟩
    rcases List.mem_append.mp hl with hl | hl
    · simp only [inbound, List.mem_cons, List.not_mem_nil, or_false] at hl
      rcases hl with rfl | rfl
      · exact absurd hadd not_addsTo_declare
      · obtain rfl := addsTo_jump.mp hadd
        exact .inr ⟨rfl, .inl ⟨hc'.imp_right .inl, rfl⟩⟩
    · obtain ⟨r, rfl⟩ := appendedRules_append l hl
      rw [addsTo_append, ruleTarget_str (by rcases hc' with rfl | rfl <;> decide)] at hadd
      exact .inl hadd.symm
  · refine .inl ⟨"FORWARD", rfl, by decide, ?_⟩
    rcases List.mem_append.mp hl with hl | hl
    · rcases forward_addsTo hl hadd with ⟨rfl, rfl⟩ | rfl
      · exact .inr ⟨rfl, .inl ⟨.inr (.inr rfl), rfl⟩⟩
      · exact .inl rfl
    · obtain ⟨r, rfl⟩ := appendedRules_append l hl
      rw [addsTo_append, ruleTarget_str (by decide)] at hadd
      exact .inl hadd.symm
  · -- `to`: nothing is appended, the input, forward and destinations' chains
    obtain ⟨kvs, hkvs⟩ := destinations_entries hn hdl
    rw [appendedRules_of_entries hkvs, List.append_nil] at hl
    refine .inr ⟨rfl, ?_⟩
    rcases List.mem_append.mp hl with hl | hl
    · rcases List.mem_append.mp hl with hl | hl
      · simp only [inbound, List.mem_cons, List.not_mem_nil, or_false] at hl
        rcases hl with rfl | rfl
        · exact absurd hadd not_addsTo_declare
        · obtain rfl := addsTo_jump.mp hadd
          exact .inr (.inl ⟨.inr (.inl rfl), by rw [append_underscore_input]⟩)
      · rcases forward_addsTo hl hadd with ⟨rfl, rfl⟩ | rfl
        · exact .inr (.inl ⟨.inr (.inr rfl), by rw [append_underscore_forward]⟩)
        · exact .inl ⟨"FORWARD", append_underscore_forward n⟩
    · rcases destinations_addsTo hn hdl hl hadd with rfl | hc | hs
      · exact .inl ⟨"FORWARD", append_underscore_forward n⟩
      · cases hc
        exact .inl ⟨"INPUT", append_underscore_input n⟩
      · exact .inl hs
  · simp only [List.mem_cons, List.not_mem_nil, or_false] at hc'
    refine .inl ⟨c', rfl, by simp [entryChains]; tauto, ?_⟩
    rcases List.mem_append.mp hl with hl | hl
    · simp only [outbound, List.mem_cons, List.not_mem_nil, or_false] at hl
      rcases hl with rfl | rfl
      · exact absurd hadd not_addsTo_declare
      · obtain rfl := addsTo_jump.mp hadd
        exact .inr ⟨rfl, .inr ⟨hc', rfl⟩⟩
    · obtain ⟨r, rfl⟩ := appendedRules_append l hl
      rw [addsTo_append, ruleTarget_str (by rcases hc' with rfl | rfl <;> decide)] at hadd
      exact .inl hadd.symm

/-- A line of one chain of an ordinary zone's rules adds to a chain of the
zone, or enters one from a built-in chain. -/
theorem chainEntry_owned {l : Line} (hn : name tree zone = .ok n)
    (h : chainEntry tree zone n allowIntra chains chain items = .ok entry)
    (hl : l ∈ entry ++ appendedRules n chain items) (hadd : l.addsTo c) :
    (∃ s, c = n ++ "_" ++ s) ∨ EntersFrom zone n c l := by
  rcases chainEntry_addsTo hn h hl hadd with ⟨s, -, -, hc | ⟨-, he⟩⟩ | ⟨-, ho⟩
  exacts [.inl ⟨s, hc⟩, .inr he, ho]

/-- The only chain of an ordinary zone's rules with default jumps is `to`,
which stands alone beside `INPUT`, `FORWARD` and `OUTPUT`: its lines are the
input and forward chains, without default jumps, then the destinations. -/
theorem chainEntry_default_cases (hn : name tree zone = .ok n)
    (h : chainEntry tree zone n allowIntra chains chain items = .ok entry) :
    (∀ c, ¬ HasDefaultJump (entry ++ appendedRules n chain items) c) ∨
      (chain = .str "to" ∧ (∀ c' ∈ ["INPUT", "FORWARD", "OUTPUT"], chains.hasKey c' = false) ∧
        ∃ pre dl, destinations tree zone (n ++ "_FORWARD") (some (n ++ "_INPUT")) items = .ok dl ∧
          (∀ c, ¬ HasDefaultJump pre c) ∧ entry ++ appendedRules n chain items = pre ++ dl) := by
  have hn_ := underscore_not_mem_name hn
  have happ : ∀ (ch : Value) (t : String) (g : Option Guard) (cm : Option String) (u : String),
      Line.jump t g cm u ∉ appendedRules n ch items := fun ch t g cm u hj => by
    obtain ⟨r, hr⟩ := appendedRules_append _ hj
    cases hr
  -- the entry lines of a built-in chain jump into the zone's chain of that name
  have hbuiltin : ∀ s ∈ entryChains, ∀ g, ∀ c, ¬ HasDefaultJump
      ([.declare (n ++ "_" ++ s), .jump s g none (n ++ "_" ++ s)] ++
        appendedRules n (.str s) items) c := by
    intro s hs g c
    refine no_default_of_targets hn_ fun c' g' cm t hj => ?_
    rcases List.mem_append.mp hj with hj | hj
    · simp only [List.mem_cons, reduceCtorEq, Line.jump.injEq, List.not_mem_nil, or_false,
        false_or] at hj
      exact .inr ⟨s, entryChain_ne_default hs, hj.2.2.2⟩
    · exact absurd hj (happ _ _ _ _ _)
  have hfwd : ∀ c, ¬ HasDefaultJump (forward zone (n ++ "_" ++ "FORWARD") allowIntra) c :=
    fun c => no_default_of_targets hn_ fun c' g cm t hj => by
      rcases forward_jump hj with ⟨-, -, rfl⟩ | ⟨-, -, rfl⟩
      exacts [.inr ⟨"FORWARD", by decide, rfl⟩, .inl rfl]
  rcases chainEntry_cases h with ⟨c', hc', rfl, rfl⟩ | ⟨rfl, rfl⟩ | ⟨rfl, hno, dl, hdl, rfl⟩ |
    ⟨c', hc', rfl, rfl⟩
  · exact .inl (hbuiltin c' (by simp [entryChains] at hc' ⊢; tauto) _)
  · refine .inl fun c hd => ?_
    rcases HasDefaultJump.append_iff.mp hd with hd | ⟨g, cm, n', -, hj⟩
    exacts [hfwd c hd, happ _ _ _ _ _ hj]
  · -- `to`: the default jumps are those of the destinations
    obtain ⟨kvs, hkvs⟩ := destinations_entries hn hdl
    refine .inr ⟨rfl, hno, _, dl, hdl, fun c hd => ?_, by
      rw [appendedRules_of_entries hkvs, List.append_nil]⟩
    rcases HasDefaultJump.append_iff.mp hd with hd | hd
    · refine no_default_of_targets hn_ (fun c' g cm t hj => ?_) hd
      simp only [inbound, List.mem_cons, reduceCtorEq, Line.jump.injEq, List.not_mem_nil,
        or_false, false_or] at hj
      exact .inr ⟨"INPUT", by decide, hj.2.2.2.trans (append_underscore_input n)⟩
    · rw [append_underscore_forward] at hd
      exact hfwd c hd
  · exact .inl (hbuiltin c' (by simp [entryChains] at hc' ⊢; tauto) _)

/-- The lines of every chain of an ordinary zone's rules have their default
jumps last. -/
theorem chainEntry_defaultLast (hn : name tree zone = .ok n)
    (h : chainEntry tree zone n allowIntra chains chain items = .ok entry) :
    DefaultLast X (entry ++ appendedRules n chain items) := by
  rcases chainEntry_default_cases hn h with hnone | ⟨-, -, pre, dl, hdl, hpre, he⟩
  · exact defaultLast_of_none hnone
  have hne : n ++ "_FORWARD" ≠ n ++ "_" ++ defaultZone := by
    rw [append_underscore_forward, Ne, String.append_right_inj]
    decide
  have hne' : ∀ t ∈ some (n ++ "_INPUT"), t ≠ n ++ "_FORWARD" ∧ t ≠ n ++ "_" ++ defaultZone := by
    intro t ht
    cases ht
    rw [append_underscore_input, append_underscore_forward, Ne, Ne, String.append_right_inj,
      String.append_right_inj]
    decide
  rw [he]
  exact (defaultLast_of_none hpre).append (destinations_defaultLast hn hdl hne hne')
    fun c hc => absurd hc (hpre c)

/-- The default jumps of a zone's rules belong to its `to` chain and leave the
zone's forward or input chain. -/
theorem chainEntry_default_source (hn : name tree zone = .ok n)
    (h : chainEntry tree zone n allowIntra chains chain items = .ok entry)
    (hc : HasDefaultJump (entry ++ appendedRules n chain items) c) :
    chain = .str "to" ∧ (c = n ++ "_" ++ "FORWARD" ∨ c = n ++ "_" ++ "INPUT") ∧
      ∀ c' ∈ ["INPUT", "FORWARD", "OUTPUT"], chains.hasKey c' = false := by
  rcases chainEntry_default_cases hn h with hnone | ⟨hto, hno, pre, dl, hdl, hpre, he⟩
  · exact absurd hc (hnone c)
  rw [he] at hc
  refine ⟨hto, ?_, hno⟩
  rcases HasDefaultJump.append_iff.mp hc with hc | hc
  · exact absurd hc (hpre c)
  · rcases destinations_default_source hn hdl hc with rfl | hc
    · exact .inl (append_underscore_forward n)
    · cases hc
      exact .inr (append_underscore_input n)

end Chains

section Zones

variable {tree zone : Value} {n : String} {X : String → Line → Prop} {c : String}

theorem mem_inTable {zs : List TableLine} {l : Line} {table : String} :
    l ∈ inTable zs table ↔ (.str table, l) ∈ zs := by
  simp only [inTable, List.mem_filterMap, Prod.exists]
  constructor
  · rintro ⟨t, l', hm, he⟩
    split at he
    · next ht =>
        cases he
        rwa [← Value.beq_str_iff.mp ht]
    · cases he
  · intro hm
    exact ⟨_, l, hm, by simp⟩

/-- Lines tagged with one table give nothing to another table, and their
lines to it. -/
theorem inTable_view {zs : List TableLine} {tb : Value} {table : String}
    (h : ∀ l ∈ zs, l.1 = tb) : inTable zs table = [] ∨ (tb = .str table ∧ inTable zs table = zs.map (·.2)) := by
  rw [inTable_of_tagged h]
  split
  · next ht => exact .inr ⟨Value.beq_str_iff.mp ht, rfl⟩
  · exact .inl rfl

/-- One table of an ordinary zone, chain by chain: only its `to` chain has
default jumps, and no other chain of the table adds to the input and forward
chains they leave. -/
theorem tableLines_defaultLast {allowIntra : Bool} {tb chains : Value}
    {ces : List (Value × Value)} {zs : List TableLine} (hn : name tree zone = .ok n)
    (hce : chains.entries = .ok ces) (hdc : DistinctKeys ces)
    (h : ces.flatMapM (fun (chain, items) =>
      chainLines tree zone n allowIntra tb chains chain items) = .ok zs) :
    DefaultLast X (zs.map (·.2)) := by
  refine flatMapM_defaultLast List.map_nil (fun _ _ => List.map_append) h hdc ?_ ?_
  · rintro ⟨chain, items⟩ - ws hws
    obtain ⟨entry, he, rfl⟩ := chainLines_ok hws
    rw [map_snd_tag]
    exact chainEntry_defaultLast hn he
  rintro ⟨k, i⟩ hx ⟨k', i'⟩ hy hxy zx zy hzx hzy c hc l hl hadd
  obtain ⟨ex, hex, rfl⟩ := chainLines_ok hzx
  obtain ⟨ey, hey, rfl⟩ := chainLines_ok hzy
  rw [map_snd_tag] at hc hl
  obtain ⟨rfl, hcs, hno⟩ := chainEntry_default_source hn hex hc
  -- the other chain is a built-in chain beside `to`: `PREROUTING` or `POSTROUTING`
  rcases chainEntry_addsTo hn hey hl hadd with ⟨s, rfl, hs, hc'⟩ | ⟨rfl, -⟩
  · have hks : chains.hasKey s = true := hasKey_of_mem hce hy
    have hs' : s ≠ "INPUT" ∧ s ≠ "FORWARD" := by
      constructor <;> rintro rfl
      exacts [Bool.false_ne_true ((hno "INPUT" (by simp)).symm.trans hks),
        Bool.false_ne_true ((hno "FORWARD" (by simp)).symm.trans hks)]
    rcases hc' with rfl | ⟨rfl, -⟩
    · rcases hcs with hcs | hcs <;> rw [String.append_right_inj] at hcs <;> simp_all
    · rcases hcs with hcs | hcs <;> exact (entryChain_ne_joined hs _ hcs).elim
  · simp at hxy

/-- The lines of an ordinary zone, table by table: in each table, their
default jumps come last. -/
theorem zoneLines_defaultLast {rules : Value} {allowIntra : Bool} {ls : List TableLine}
    (hn : name tree zone = .ok n) (hr : KeyedTo 3 rules)
    (h : zoneLines tree zone rules allowIntra = .ok ls) (table : String) :
    DefaultLast X (inTable ls table) := by
  unfold zoneLines at h
  obtain ⟨zn, hzn, h⟩ := except_bind_eq_ok.mp h
  rw [hn] at hzn
  cases hzn
  obtain ⟨tables, hte, h⟩ := except_bind_eq_ok.mp h
  obtain ⟨hdt, hkt⟩ := hr.entries hte
  -- the lines of a table are tagged with it
  have htag : ∀ x ∈ tables, ∀ zs, (do
      let chainEntries ← x.2.entries
      chainEntries.flatMapM fun (chain, items) =>
        chainLines tree zone n allowIntra x.1 x.2 chain items) = Except.ok zs →
      (∀ l ∈ zs, l.1 = x.1) ∧ DefaultLast X (zs.map (·.2)) := by
    rintro ⟨tb, chains⟩ hmem zs hzs
    obtain ⟨ces, hce, hzs⟩ := except_bind_eq_ok.mp hzs
    refine ⟨flatMapM_tagged hzs fun ⟨k, i⟩ _ ws hws l hl => ?_,
      tableLines_defaultLast hn hce ((hkt _ hmem).entries hce).1 hzs⟩
    obtain ⟨entry, -, rfl⟩ := chainLines_ok hws
    obtain ⟨l, -, rfl⟩ := List.mem_map.mp hl
    rfl
  refine @flatMapM_defaultLast X _ _ _ _ (fun zs => inTable zs table) (inTable_nil table)
    (fun a b => inTable_append a b table) _ _ _ h hdt (fun x hx zs hzs => ?_) ?_
  · obtain ⟨ht, hd⟩ := htag x hx zs hzs
    rcases inTable_view ht with he | ⟨-, he⟩
    · rw [he]
      exact defaultLast_of_none fun _ ⟨_, _, _, _, hj⟩ => nomatch hj
    · rw [he]
      exact hd
  -- two tables with lines in one table are one key
  rintro x hx y hy hxy zx zy hzx hzy c ⟨g, cm, n', -, hj⟩ l hl -
  have h1 := mem_inTable.mp hj
  have h2 := mem_inTable.mp hl
  have e1 := (htag x hx zx hzx).1 _ h1
  have e2 := (htag y hy zy hzy).1 _ h2
  simp only at e1 e2
  rw [← e1, ← e2] at hxy
  simp at hxy

/-- The lines of the local zone, table by table: in each table, its default
jump comes last. -/
theorem localLines_defaultLast {rules : Value} {ls : List TableLine} (hr : KeyedTo 3 rules)
    (h : localLines tree (.str localZone) rules = .ok ls) (table : String) :
    DefaultLast X (inTable ls table) := by
  unfold localLines at h
  obtain ⟨tables, hte, h⟩ := except_bind_eq_ok.mp h
  obtain ⟨hdt, hkt⟩ := hr.entries hte
  have htag : ∀ x ∈ tables, ∀ zs, (do
      let members ← x.2.members
      members.flatMapM (localChainLines tree (.str localZone) x.1 x.2)) = Except.ok zs →
      (∀ l ∈ zs, l.1 = x.1) ∧ DefaultLast X (zs.map (·.2)) := by
    rintro ⟨tb, chains⟩ hmem zs hzs
    obtain ⟨ms, hms, hzs⟩ := except_bind_eq_ok.mp hzs
    -- the only chain is `to`, entered from `OUTPUT`
    have hchain : ∀ x ∈ ms, ∀ ws, localChainLines tree (.str localZone) tb chains x = .ok ws →
        x = .str "to" ∧ (∀ l ∈ ws, l.1 = tb) ∧ DefaultLast X (ws.map (·.2)) := by
      intro x _ ws hws
      obtain ⟨rfl, toZones, -, dl, hdl, rfl⟩ := localChainLines_ok hws
      rw [map_snd_tag]
      refine ⟨rfl, fun l hl => ?_, destinations_defaultLast (name_local tree) hdl
        (entryChain_ne_joined (by decide) _) fun t ht => nomatch ht⟩
      obtain ⟨l, -, rfl⟩ := List.mem_map.mp hl
      rfl
    refine ⟨flatMapM_tagged hzs fun x hx ws hws => (hchain x hx ws hws).2.1,
      flatMapM_defaultLast List.map_nil (fun _ _ => List.map_append) hzs
        (localMembers_pairwise (hkt _ hmem) hms hzs)
        (fun x hx ws hws => (hchain x hx ws hws).2.2) ?_⟩
    intro x hx y hy hxy zx zy hzx hzy
    rw [(hchain x hx zx hzx).1, (hchain y hy zy hzy).1] at hxy
    simp at hxy
  refine @flatMapM_defaultLast X _ _ _ _ (fun zs => inTable zs table) (inTable_nil table)
    (fun a b => inTable_append a b table) _ _ _ h hdt (fun x hx zs hzs => ?_) ?_
  · obtain ⟨ht, hd⟩ := htag x hx zs hzs
    rcases inTable_view ht with he | ⟨-, he⟩
    · rw [he]
      exact defaultLast_of_none fun _ ⟨_, _, _, _, hj⟩ => nomatch hj
    · rw [he]
      exact hd
  rintro x hx y hy hxy zx zy hzx hzy c ⟨g, cm, n', -, hj⟩ l hl -
  have e1 := (htag x hx zx hzx).1 _ (mem_inTable.mp hj)
  have e2 := (htag y hy zy hzy).1 _ (mem_inTable.mp hl)
  simp only at e1 e2
  rw [← e1, ← e2] at hxy
  simp at hxy

end Zones

section Configuration

variable {tree : Value} {ls : List TableLine} {c : String}

theorem EntersFrom.builtin {zone : Value} {n : String} {l : Line} (h : EntersFrom zone n c l) :
    c ∈ entryChains := by
  simp only [entryChains, List.mem_cons, List.not_mem_nil, or_false]
  rcases h with ⟨hc, -⟩ | ⟨hc, -⟩ <;> tauto

/-- The chains that the lines of one configured zone add to: the zone's own
chains; for the local zone also `OUTPUT`; for an ordinary zone also the
built-in chains, each only by the jump that enters the zone's chain of the
same name. -/
theorem linesOf_owned {zone params tb : Value} {zs : List TableLine} {l : Line}
    (h : linesOf tree zone params = .ok zs) (hl : (tb, l) ∈ zs) (hadd : l.addsTo c) :
    ∃ n, name tree zone = .ok n ∧ ((∃ s, c = n ++ "_" ++ s) ∨
      (zone = .str localZone ∧ c = "OUTPUT") ∨ (zone ≠ .str localZone ∧ EntersFrom zone n c l)) := by
  obtain ⟨rules, -, ⟨rfl, h⟩ | ⟨hz, allowIntra, h⟩⟩ := linesOf_ok h
  · refine ⟨localZone, name_local tree, ?_⟩
    unfold localLines at h
    obtain ⟨tables, -, h⟩ := except_bind_eq_ok.mp h
    obtain ⟨⟨table, chains⟩, -, zs, hzs, hl⟩ := mem_of_flatMapM_ok h hl
    obtain ⟨members, -, hzs⟩ := except_bind_eq_ok.mp hzs
    obtain ⟨chain, -, ws, hws, hl⟩ := mem_of_flatMapM_ok hzs hl
    obtain ⟨-, toZones, -, dl, hdl, rfl⟩ := localChainLines_ok hws
    obtain ⟨l', hl', hle⟩ := List.mem_map.mp hl
    cases hle
    -- the local zone's destinations are entered from `OUTPUT`
    rcases destinations_addsTo (name_local tree) hdl hl' hadd with rfl | hc | hs
    · exact .inr (.inl ⟨rfl, rfl⟩)
    · cases hc
    · exact .inl hs
  · obtain ⟨n, hn⟩ := zoneLines_name h
    refine ⟨n, hn, ?_⟩
    unfold zoneLines at h
    obtain ⟨zn, hzn, h⟩ := except_bind_eq_ok.mp h
    rw [hn] at hzn
    cases hzn
    obtain ⟨tables, -, h⟩ := except_bind_eq_ok.mp h
    obtain ⟨⟨table, chains⟩, -, zs, hzs, hl⟩ := mem_of_flatMapM_ok h hl
    obtain ⟨entries, -, hzs⟩ := except_bind_eq_ok.mp hzs
    obtain ⟨⟨chain, items⟩, -, ws, hws, hl⟩ := mem_of_flatMapM_ok hzs hl
    obtain ⟨entry, he, rfl⟩ := chainLines_ok hws
    obtain ⟨l', hl', hle⟩ := List.mem_map.mp hl
    cases hle
    rcases chainEntry_owned hn he hl' hadd with hs | he
    exacts [.inl hs, .inr (.inr ⟨hz, he⟩)]

/-- What may still add to `OUTPUT` after the local zone's default jump: the
jump from `OUTPUT` into an ordinary zone's output chain, guarded by the
zone's interfaces. -/
def OutputDispatch (tree : Value) (c : String) (l : Line) : Prop :=
  c = "OUTPUT" ∧ ∃ zone m, name tree zone = .ok m ∧ zone ≠ .str localZone ∧
    l = .jump "OUTPUT" (some (.outbound zone.text)) none (m ++ "_" ++ "OUTPUT")

/-- In every table of a keyed configuration, a jump into a zone's default
chain is the last zone line that adds to the chain it leaves, except that the
local zone's default jump, which leaves `OUTPUT`, may be followed by the
guarded jumps from `OUTPUT` into the output chains of ordinary zones. -/
theorem default_jump_last (h : allLines tree = .ok ls) (hk : Keyed tree) (table : String) :
    DefaultLast (OutputDispatch tree) (inTable ls table) := by
  unfold allLines at h
  obtain ⟨zones, hz, h⟩ := except_bind_eq_ok.mp h
  obtain ⟨kvs, he, h⟩ := except_bind_eq_ok.mp h
  obtain ⟨hd, hkz⟩ := hk.zones hz he
  refine @flatMapM_defaultLast _ _ _ _ _ (fun zs => inTable zs table) (inTable_nil table)
    (fun a b => inTable_append a b table) _ _ _ h hd (fun ⟨zone, params⟩ hx zs hzs => ?_) ?_
  · obtain ⟨rules, hr, ⟨rfl, hzs⟩ | ⟨-, allowIntra, hzs⟩⟩ := linesOf_ok hzs
    · exact localLines_defaultLast ((hkz _ hx).2 rules hr).1 hzs table
    · obtain ⟨n, hn⟩ := zoneLines_name hzs
      exact zoneLines_defaultLast hn ((hkz _ hx).2 rules hr).1 hzs table
  -- the chain an earlier zone's default jump leaves is that zone's own, or `OUTPUT`
  rintro ⟨x, px⟩ hxm ⟨y, py⟩ hym hxy zx zy hzx hzy c ⟨g, cm, n', hn', hj⟩ l hl hadd
  have hsame : ∀ {nx ny}, name tree x = .ok nx → name tree y = .ok ny → nx = ny → False :=
    fun hnx hny hn => by
      have := hk.sameKey_of_zone_name hz he hxm hym hnx (hn ▸ hny)
      simp_all
  obtain ⟨nx, hnx, hcx⟩ := linesOf_owned hzx (mem_inTable.mp hj) (addsTo_jump.mpr rfl)
  obtain ⟨ny, hny, hcy⟩ := linesOf_owned hzy (mem_inTable.mp hl) hadd
  have hux := underscore_not_mem_name hnx
  have huy := underscore_not_mem_name hny
  rcases hcx with ⟨s, rfl⟩ | ⟨rfl, rfl⟩ | ⟨-, hex⟩
  · rcases hcy with ⟨s', hs'⟩ | ⟨-, hc⟩ | ⟨-, hey⟩
    · exact (hsame hnx hny (append_underscore_inj hux huy hs').1).elim
    · exact (entryChain_ne_joined (by decide : "OUTPUT" ∈ entryChains) _ hc.symm).elim
    · exact (entryChain_ne_joined hey.builtin _ rfl).elim
  · rcases hcy with ⟨s', hs'⟩ | ⟨rfl, -⟩ | ⟨hy, hey⟩
    · exact (entryChain_ne_joined (by decide : "OUTPUT" ∈ entryChains) _ hs').elim
    · exact (hsame hnx hny (by rw [name_local] at hnx hny; simp_all)).elim
    · -- an ordinary zone's line adding to `OUTPUT` enters its output chain
      rcases hey with ⟨hc, -⟩ | ⟨-, rfl⟩
      · simp at hc
      · exact ⟨rfl, y, ny, hny, hy, rfl⟩
  · exact (hex.not_default hux hn' rfl).elim

/-- A host with a default destination, listed before `lan`, which has output
rules. -/
def hostThenLan : Value := .dict [(.str "zones", .dict [
  (.str "local", .dict [(.str "rules", .dict [(.str "filter", .dict [(.str "to", .dict [
    (.str "default", .list [.str "-j ACCEPT"])])])])]),
  (.str "lan", .dict [(.str "interfaces", .list [.str "eth0"]),
    (.str "rules", .dict [(.str "filter", .dict [(.str "OUTPUT", .list [.str "-j DROP"])])])])])]

/-- The host's jump into its default chain comes before `lan`'s jump from
`OUTPUT` into its output chain, which then only sees what the host's default
chain lets through. -/
theorem hostThenLan_default_before_dispatch :
    Keyed hostThenLan ∧ ∃ ls pre post, allLines hostThenLan = .ok ls ∧
      inTable ls "filter" = pre ++ .jump "OUTPUT" none none (localZone ++ "_" ++ defaultZone) :: post ∧
      .jump "OUTPUT" (some (.outbound "lan")) none "zone1_OUTPUT" ∈ post := by
  have hk : Keyed hostThenLan := by decide +kernel
  have hl : (allLines hostThenLan).map (fun ls => inTable ls "filter") =
      .ok [.declare "local_default", .jump "OUTPUT" none none "local_default",
        .append "local_default" "-j ACCEPT", .declare "zone1_OUTPUT",
        .jump "OUTPUT" (some (.outbound "lan")) none "zone1_OUTPUT",
        .append "zone1_OUTPUT" "-j DROP"] := by
    decide +kernel
  cases h : allLines hostThenLan with
  | error f =>
      rw [h] at hl
      cases hl
  | ok ls =>
      rw [h] at hl
      refine ⟨hk, ls, [.declare "local_default"], _, rfl, (Except.ok.inj hl).trans rfl, ?_⟩
      simp

/-- `lan`'s default destination in `hostLanWan`: nothing after its default
jumps adds to its forward or input chain. -/
theorem hostLanWan_default_last :
    Keyed hostLanWan ∧ ∃ ls, allLines hostLanWan = .ok ls ∧
      DefaultLast (OutputDispatch hostLanWan) (inTable ls "filter") := by
  have hk : Keyed hostLanWan := by decide +kernel
  have hl : (allLines hostLanWan).map (fun _ => ()) = .ok () := by decide +kernel
  cases h : allLines hostLanWan with
  | error f =>
      rw [h] at hl
      cases hl
  | ok ls => exact ⟨hk, ls, rfl, default_jump_last h hk "filter"⟩

end Configuration

end Zone
end Firewall
