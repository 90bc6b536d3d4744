import Mathlib.Data.List.Forall2
import Firewall.Zone.Chains

/-!
# Zone chains: traversals and names

The zone rules are built by traversals that may fail (`List.flatMapM` in
`Except`) over the entries of configuration mappings, and each chain they
create is named by its zone's name and a rest, joined by `_`.  This module
gives the facts every statement about the zone rules starts from.

* `mem_of_flatMapM_ok`, `flatMapM_ok_closed`: what a traversal that succeeds
  gives comes from its steps, and what every step's result has, kept by
  concatenation, its result has.
* `underscore_not_mem_name`: a zone's name holds no `_`, so a chain name
  `n ++ "_" ++ rest` tells the zone's name and the rest apart
  (`append_underscore_inj`).
* `name_eq_local_iff`: only the local zone is named `local`.
* `appendAll_ok`: the rules of a chain are appended to that chain.
-/

namespace Firewall

section Traverse

variable {α β ε : Type}

theorem except_bind_eq_ok {x : Except ε α} {f : α → Except ε β} {b : β} :
    x >>= f = .ok b ↔ ∃ a, x = .ok a ∧ f a = .ok b := by
  cases x with
  | error e => simp [bind, Except.bind]
  | ok a => simp [bind, Except.bind]

/-- A step that reads a value and then fails never succeeds. -/
theorem bind_throw_ne_ok {x : Except ε α} {f : α → ε} {b : β} :
    (x >>= fun a => (throw (f a) : Except ε β)) ≠ .ok b := by
  cases x <;> rintro ⟨⟩

/-- Every result of a traversal that succeeds comes from one of its steps. -/
theorem mem_of_flatMapM_ok {f : α → Except ε (List β)} {y : β} :
    ∀ {xs : List α} {ys : List β}, xs.flatMapM f = .ok ys → y ∈ ys →
      ∃ x ∈ xs, ∃ zs, f x = .ok zs ∧ y ∈ zs
  | [], ys, h, hy => by
      rw [List.flatMapM_nil] at h
      cases h
      cases hy
  | x :: xs, ys, h, hy => by
      rw [List.flatMapM_cons] at h
      obtain ⟨zs, hx, h⟩ := except_bind_eq_ok.mp h
      obtain ⟨rest, hrest, h⟩ := except_bind_eq_ok.mp h
      cases h
      rcases List.mem_append.mp hy with hy | hy
      · exact ⟨x, List.mem_cons_self, zs, hx, hy⟩
      · obtain ⟨x', hx', w, hw, hyw⟩ := mem_of_flatMapM_ok hrest hy
        exact ⟨x', List.mem_cons_of_mem _ hx', w, hw, hyw⟩

/-- What holds of the result of every step of a traversal that succeeds, and
is kept by concatenation, holds of its result. -/
theorem flatMapM_ok_closed {f : α → Except ε (List β)} {Q : List β → Prop} (h0 : Q [])
    (happ : ∀ a b, Q a → Q b → Q (a ++ b)) :
    ∀ {xs : List α} {ys : List β}, xs.flatMapM f = .ok ys →
      (∀ x ∈ xs, ∀ zs, f x = .ok zs → Q zs) → Q ys
  | [], ys, h, _ => by
      rw [List.flatMapM_nil] at h
      cases h
      exact h0
  | x :: xs, ys, h, hstep => by
      rw [List.flatMapM_cons] at h
      obtain ⟨zs, hx, h⟩ := except_bind_eq_ok.mp h
      obtain ⟨rest, hrest, h⟩ := except_bind_eq_ok.mp h
      cases h
      exact happ _ _ (hstep x List.mem_cons_self zs hx)
        (flatMapM_ok_closed h0 happ hrest fun x' hx' => hstep x' (List.mem_cons_of_mem _ hx'))

variable {γ : Type} {d : List β → List γ}

/-- Through a view `d` that distributes over concatenation, every item of the
result of a traversal comes from one of its steps. -/
theorem mem_view_of_flatMapM_ok (hd0 : d [] = []) (hd : ∀ a b, d (a ++ b) = d a ++ d b)
    {f : α → Except ε (List β)} {xs : List α} {ys : List β} (h : xs.flatMapM f = .ok ys) :
    ∀ c ∈ d ys, ∃ x ∈ xs, ∃ zs, f x = .ok zs ∧ c ∈ d zs := by
  refine @flatMapM_ok_closed _ _ _ f (fun ys => ∀ c ∈ d ys, ∃ x ∈ xs, ∃ zs, f x = .ok zs ∧ c ∈ d zs)
    ?_ ?_ xs ys h ?_
  · simp [hd0]
  · intro a b ha hb c hc
    rw [hd, List.mem_append] at hc
    exact hc.elim (ha c) (hb c)
  · exact fun x hx zs hzs c hc => ⟨x, hx, zs, hzs, hc⟩

/-- A traversal whose steps give, through the view `d`, lists without repeats
that share nothing when their inputs are related (the earlier one first) gives a
list without repeats. -/
theorem flatMapM_ok_nodup (hd0 : d [] = []) (hd : ∀ a b, d (a ++ b) = d a ++ d b)
    {f : α → Except ε (List β)} {R : α → α → Prop} :
    ∀ {xs : List α} {ys : List β}, xs.flatMapM f = .ok ys → xs.Pairwise R →
      (∀ x ∈ xs, ∀ zs, f x = .ok zs → (d zs).Nodup) →
      (∀ x ∈ xs, ∀ y ∈ xs, R x y → ∀ zx zy, f x = .ok zx → f y = .ok zy →
        ∀ c ∈ d zx, c ∉ d zy) →
      (d ys).Nodup
  | [], ys, h, _, _, _ => by
      rw [List.flatMapM_nil] at h
      cases h
      simp [hd0]
  | x :: xs, ys, h, hR, hstep, hsep => by
      rw [List.flatMapM_cons] at h
      obtain ⟨zs, hx, h⟩ := except_bind_eq_ok.mp h
      obtain ⟨rest, hrest, h⟩ := except_bind_eq_ok.mp h
      cases h
      obtain ⟨hxR, hR⟩ := List.pairwise_cons.mp hR
      rw [hd, List.nodup_append]
      refine ⟨hstep x List.mem_cons_self zs hx,
        flatMapM_ok_nodup hd0 hd hrest hR (fun y hy => hstep y (List.mem_cons_of_mem _ hy))
          (fun y hy y' hy' => hsep y (List.mem_cons_of_mem _ hy) y' (List.mem_cons_of_mem _ hy')),
        ?_⟩
      -- what the rest gives comes from a later step, which shares nothing with the first
      rintro c hc c' hc' rfl
      obtain ⟨y, hy, zy, hzy, hcy⟩ := mem_view_of_flatMapM_ok hd0 hd hrest c hc'
      exact hsep x List.mem_cons_self y (List.mem_cons_of_mem _ hy) (hxR y hy) zs zy hx hzy c hc hcy

end Traverse

section Mappings

variable {v x : Value} {kvs : List (Value × Value)}

/-- The keys of a mapping are the keys of its entries. -/
theorem keyList_ok {keys : List Value} (h : v.keyList = .ok keys) :
    ∃ kvs, v.entries = .ok kvs ∧ keys = kvs.map (·.1) := by
  unfold Value.keyList at h
  unfold Value.entries
  cases hm : v.mapping? with
  | none =>
      rw [hm] at h
      cases h
  | some kvs =>
      rw [hm] at h
      cases h
      exact ⟨kvs, rfl, rfl⟩

/-- The members of a mapping are its keys. -/
theorem members_of_entries (h : v.entries = .ok kvs) : v.members = .ok (kvs.map (·.1)) := by
  unfold Value.entries Value.mapping? at h
  unfold Value.members
  cases hu : v.unfold <;> simp only [hu] at h ⊢ <;> cases h <;> rfl

theorem lookup_some {k : Value} (h : Value.lookup kvs k = some x) :
    ∃ k', (k', x) ∈ kvs ∧ Value.sameKey k' k = true := by
  unfold Value.lookup at h
  obtain ⟨⟨k', x'⟩, hf, rfl⟩ := Option.map_eq_some_iff.mp h
  have hk : Value.sameKey k' k = true := by simpa using List.find?_some hf
  exact ⟨k', List.mem_of_find?_eq_some hf, hk⟩

/-- The entry under a key that exists is an entry of a mapping. -/
theorem child_ok {k : String} (h : v.child k = .ok x) :
    ∃ kvs, v.entries = .ok kvs ∧ ∃ k', (k', x) ∈ kvs ∧ Value.sameKey k' (.str k) = true := by
  unfold Value.child at h
  unfold Value.entries Value.mapping?
  cases hu : v.unfold <;> simp only [hu] at h ⊢ <;> try cases h
  all_goals
    split at h
    · next x' hl =>
        cases h
        exact ⟨_, rfl, lookup_some hl⟩
    · cases h

/-- A mapping has every key of its entries. -/
theorem hasKey_of_mem {k : String} (h : v.entries = .ok kvs) (hm : (.str k, x) ∈ kvs) :
    v.hasKey k = true := by
  unfold Value.entries at h
  unfold Value.hasKey
  cases hv : v.mapping? with
  | none =>
      rw [hv] at h
      cases h
  | some kvs' =>
      rw [hv] at h
      cases h
      exact List.any_eq_true.mpr ⟨_, hm, by simp⟩

end Mappings

namespace Zone

section Names

variable {tree zone : Value} {n : String}

theorem special_eq_some {v : Value} {s : String} (h : special v = some s) :
    v = .str s ∧ (s = localZone ∨ s = defaultZone) := by
  cases v with
  | str t =>
      simp only [special] at h
      split at h
      · next hs =>
          cases h
          simpa using hs
      · cases h
  | _ => cases h

/-- The name of a zone is `local`, `default`, or `zone` and its position. -/
theorem name_cases (h : name tree zone = .ok n) :
    (zone = .str n ∧ (n = localZone ∨ n = defaultZone)) ∨
      ∃ i, index tree zone = .ok i ∧ n = "zone" ++ toString i := by
  unfold name at h
  cases hs : special zone with
  | some s =>
      rw [hs] at h
      cases h
      exact .inl (special_eq_some hs)
  | none =>
      rw [hs] at h
      obtain ⟨i, hi, h⟩ := except_bind_eq_ok.mp h
      exact .inr ⟨i, hi, (Except.ok.inj h).symm⟩

/-- A number is written in digits only. -/
theorem not_mem_digits {c : Char} (hc : c.isDigit = false) (i : Nat) : c ∉ (toString i).toList := by
  rw [Nat.toString_eq_repr, Nat.toList_repr]
  intro hm
  rw [Nat.isDigit_of_mem_toDigits (by decide) (by decide) hm] at hc
  cases hc

/-- The position of a value among the zones is that of a zone with its key. -/
theorem index_ok {i : Nat} (h : index tree zone = .ok i) :
    ∃ zones kvs, tree.getD "zones" (.dict []) = .ok zones ∧ zones.entries = .ok kvs ∧
      ∃ hi : i < kvs.length, Value.sameKey kvs[i].1 zone = true := by
  unfold index at h
  obtain ⟨zones, hz, h⟩ := except_bind_eq_ok.mp h
  obtain ⟨keys, hk, h⟩ := except_bind_eq_ok.mp h
  obtain ⟨kvs, he, rfl⟩ := keyList_ok hk
  split at h
  · next j hj =>
      cases h
      obtain ⟨hi, hs, -⟩ := List.findIdx?_eq_some_iff_getElem.mp hj
      rw [List.length_map] at hi
      exact ⟨zones, kvs, hz, he, hi, by simpa using hs⟩
  · cases h

/-- A zone's name holds no `_`. -/
theorem underscore_not_mem_name (h : name tree zone = .ok n) : '_' ∉ n.toList := by
  rcases name_cases h with ⟨-, rfl | rfl⟩ | ⟨i, -, rfl⟩
  · decide
  · decide
  · rw [String.toList_append, List.mem_append, not_or]
    exact ⟨by decide, not_mem_digits (by decide) i⟩

/-- Only the local zone is named `local`. -/
theorem name_eq_local_iff (h : name tree zone = .ok n) : n = localZone ↔ zone = .str localZone := by
  constructor
  · rintro rfl
    rcases name_cases h with ⟨hz, -⟩ | ⟨i, -, hi⟩
    · exact hz
    · -- the numbered names start with `z`, `local` with `l`
      have := congrArg (fun s : String => s.toList.head?) hi
      simp [localZone] at this
  · rintro rfl
    simpa using h.symm

theorem append_underscore_input (n : String) : n ++ "_INPUT" = n ++ "_" ++ "INPUT" := by
  rw [String.append_assoc]
  rfl

theorem append_underscore_forward (n : String) : n ++ "_FORWARD" = n ++ "_" ++ "FORWARD" := by
  rw [String.append_assoc]
  rfl

theorem append_underscore_to (n m : String) : n ++ "_to_" ++ m = n ++ "_" ++ ("to_" ++ m) := by
  simp only [String.append_assoc]
  rfl

theorem underscore_mem_append (n s : String) : '_' ∈ (n ++ "_" ++ s).toList := by
  simp [String.toList_append]

end Names

/-- The lines that `appendAll` gives append rules to its chain. -/
theorem appendAll_ok {chain : String} {rules : Value} {ls : List Rule.Line}
    (h : appendAll chain rules = .ok ls) : ∀ l ∈ ls, ∃ r, l = .append chain r := by
  unfold appendAll at h
  obtain ⟨members, -, h⟩ := except_bind_eq_ok.mp h
  cases h
  intro l hl
  obtain ⟨r, -, rfl⟩ := List.mem_map.mp hl
  exact ⟨_, rfl⟩

section Entries

variable {tree zone : Value} {ls : List Rule.Line}

/-- What the entry lines of a chain of a zone's rules can be: a chain entered
for packets arriving through the zone for `PREROUTING` and `INPUT`, the forward
chain for `FORWARD`, for `to` (only when no `INPUT`, `FORWARD` or `OUTPUT`
chain is configured beside it) the input and forward chains followed by the
destinations, and a chain entered for packets leaving through the zone for
`OUTPUT` and `POSTROUTING`. -/
theorem chainEntry_cases {n : String} {allowIntra : Bool} {chains chain items : Value}
    (h : chainEntry tree zone n allowIntra chains chain items = .ok ls) :
    (∃ c ∈ ["PREROUTING", "INPUT"], chain = .str c ∧ ls = inbound zone c (n ++ "_" ++ c) none) ∨
    (chain = .str "FORWARD" ∧ ls = forward zone (n ++ "_" ++ "FORWARD") allowIntra) ∨
    (chain = .str "to" ∧ (∀ c ∈ ["INPUT", "FORWARD", "OUTPUT"], chains.hasKey c = false) ∧
      ∃ dl, destinations tree zone (n ++ "_FORWARD") (some (n ++ "_INPUT")) items = .ok dl ∧
        ls = inbound zone "INPUT" (n ++ "_INPUT") none ++
          forward zone (n ++ "_FORWARD") allowIntra ++ dl) ∨
    (∃ c ∈ ["OUTPUT", "POSTROUTING"], chain = .str c ∧
      ls = outbound zone c (n ++ "_" ++ c) none) := by
  unfold chainEntry at h
  dsimp only at h
  split at h
  · -- `PREROUTING` and `INPUT`
    next hc =>
      cases h
      have hc : chain = .str "PREROUTING" ∨ chain = .str "INPUT" := by simpa using hc
      rcases hc with rfl | rfl
      · exact .inl ⟨"PREROUTING", by simp, rfl, rfl⟩
      · exact .inl ⟨"INPUT", by simp, rfl, rfl⟩
  split at h
  · next hc =>
      cases h
      have hc : chain = .str "FORWARD" := by simpa using hc
      subst hc
      exact .inr (.inl ⟨rfl, rfl⟩)
  split at h
  · -- `to`: refused beside `INPUT`, `FORWARD` or `OUTPUT`
    next hc =>
      have hc : chain = .str "to" := by simpa using hc
      split at h
      · obtain ⟨-, h, -⟩ := except_bind_eq_ok.mp h
        cases h
      · next hf =>
          obtain ⟨dl, hdl, h⟩ := except_bind_eq_ok.mp h
          cases h
          refine .inr (.inr (.inl ⟨hc, fun c hc' => ?_, dl, hdl, rfl⟩))
          have hnone : ["INPUT", "FORWARD", "OUTPUT"].find? chains.hasKey = none :=
            Option.eq_none_iff_forall_ne_some.mpr fun o ho => hf o ho
          simpa using List.find?_eq_none.mp hnone c hc'
  split at h
  · next hc =>
      cases h
      have hc : chain = .str "OUTPUT" ∨ chain = .str "POSTROUTING" := by simpa using hc
      rcases hc with rfl | rfl
      · exact .inr (.inr (.inr ⟨"OUTPUT", by simp, rfl, rfl⟩))
      · exact .inr (.inr (.inr ⟨"POSTROUTING", by simp, rfl, rfl⟩))
  · -- any other chain is refused
    exact absurd h bind_throw_ne_ok

/-- What the lines of a destination of a zone's `to` rules can be: none for the
default destination; otherwise the destination's chain, declared and entered
unguarded from the host's chain for the local destination when there is one,
else from `target` for packets leaving through the destination, then its
rules. -/
theorem destination_cases {zn target : String} {tl : Option String} {dest rules : Value}
    (h : destination tree zone zn target tl dest rules = .ok ls) :
    ls = [] ∨ ∃ m, name tree dest = .ok m ∧ dest ≠ .str defaultZone ∧
      ∃ entry ap, appendAll (zn ++ "_to_" ++ m) rules = .ok ap ∧ ls = entry ++ ap ∧
        ((dest = .str localZone ∧ ∃ c, tl = some c ∧
            entry = [.declare (zn ++ "_to_" ++ m),
              .jump c none (some (zone.text ++ " -> " ++ dest.text)) (zn ++ "_to_" ++ m)]) ∨
          ((dest = .str localZone → tl = none) ∧
            entry = outbound dest target (zn ++ "_to_" ++ m)
              (some (zone.text ++ " -> " ++ dest.text)))) := by
  unfold destination at h
  obtain ⟨m, hm, h⟩ := except_bind_eq_ok.mp h
  cases hd : dest == .str defaultZone with
  | true =>
      simp only [hd, if_true] at h
      cases h
      exact .inl rfl
  | false =>
      simp only [hd, Bool.false_eq_true, if_false] at h
      obtain ⟨ap, hap, h⟩ := except_bind_eq_ok.mp h
      cases h
      refine .inr ⟨m, hm, by simpa using hd, _, ap, hap, rfl, ?_⟩
      cases hl : dest == .str localZone with
      | false =>
          -- not the host: entered from `target`
          have hne : dest ≠ .str localZone := by simpa using hl
          refine .inr ⟨fun e => absurd e hne, ?_⟩
          cases tl <;> rfl
      | true =>
          have he : dest = .str localZone := by simpa using hl
          cases tl with
          | none => exact .inr ⟨fun _ => rfl, rfl⟩
          | some c => exact .inl ⟨he, c, rfl, rfl⟩

/-- The lines of the default destination's chain: declared, entered from
`target` and from the host's chain, then its rules. -/
theorem defaultChain_cases {zn target : String} {tl : Option String} {rules : Value}
    (h : defaultChain zn target tl rules = .ok ls) :
    ∃ ap, appendAll (zn ++ "_" ++ defaultZone) rules = .ok ap ∧
      ls = [.declare (zn ++ "_" ++ defaultZone),
          .jump target none none (zn ++ "_" ++ defaultZone)] ++
        tl.toList.map (fun c => .jump c none none (zn ++ "_" ++ defaultZone)) ++ ap := by
  unfold defaultChain at h
  obtain ⟨ap, hap, h⟩ := except_bind_eq_ok.mp h
  cases h
  refine ⟨ap, hap, ?_⟩
  cases tl <;> rfl

/-- The lines of a zone's `to` rules: those of each destination in turn, then
the default destination's chain if there is one. -/
theorem destinations_cases {n target : String} {tl : Option String} {toZones : Value}
    {dl : List Rule.Line} (h : destinations tree zone target tl toZones = .ok dl)
    (hn : name tree zone = .ok n) :
    ∃ entries, toZones.entries = .ok entries ∧ ∃ listed,
      entries.flatMapM (fun (dest, rules) => destination tree zone n target tl dest rules) =
        .ok listed ∧
      (dl = listed ∨ ∃ rules dc, defaultChain n target tl rules = .ok dc ∧ dl = listed ++ dc) := by
  unfold destinations at h
  obtain ⟨zn, hzn, h⟩ := except_bind_eq_ok.mp h
  rw [hn] at hzn
  cases hzn
  obtain ⟨entries, he, h⟩ := except_bind_eq_ok.mp h
  obtain ⟨listed, hlisted, h⟩ := except_bind_eq_ok.mp h
  refine ⟨entries, he, listed, hlisted, ?_⟩
  cases hd : Value.lookup entries (.str defaultZone) with
  | none =>
      rw [hd] at h
      exact .inl (Except.ok.inj h).symm
  | some rules =>
      rw [hd] at h
      obtain ⟨dc, hdc, h⟩ := except_bind_eq_ok.mp h
      exact .inr ⟨rules, dc, hdc, (Except.ok.inj h).symm⟩

/-- The rules of a chain of a zone's rules are appended to its chain. -/
theorem appendedRules_append {n : String} {chain items : Value} :
    ∀ l ∈ appendedRules n chain items, ∃ r, l = .append (ruleTarget n chain) r := by
  unfold appendedRules
  split <;> simp

/-- The lines of one chain of an ordinary zone's rules: its entry lines, then
rules appended to its chain, all of the table. -/
theorem chainLines_ok {n : String} {allowIntra : Bool} {table chains chain items : Value}
    {ws : List Rule.TableLine}
    (h : chainLines tree zone n allowIntra table chains chain items = .ok ws) :
    ∃ entry, chainEntry tree zone n allowIntra chains chain items = .ok entry ∧
      ws = (entry ++ appendedRules n chain items).map (table, ·) := by
  unfold chainLines at h
  obtain ⟨entry, he, h⟩ := except_bind_eq_ok.mp h
  exact ⟨entry, he, (Except.ok.inj h).symm⟩

/-- The lines of one chain of the local zone's rules: the chain is `to`, and
its lines are the destinations' lines entered from `OUTPUT`, all of the table. -/
theorem localChainLines_ok {table chains chain : Value} {ws : List Rule.TableLine}
    (h : localChainLines tree zone table chains chain = .ok ws) :
    chain = .str "to" ∧ ∃ toZones, chains.child "to" = .ok toZones ∧ ∃ dl,
      destinations tree zone "OUTPUT" none toZones = .ok dl ∧ ws = dl.map (table, ·) := by
  unfold localChainLines at h
  split at h
  · next hc =>
      obtain ⟨toZones, htz, h⟩ := except_bind_eq_ok.mp h
      obtain ⟨dl, hdl, h⟩ := except_bind_eq_ok.mp h
      exact ⟨by simpa using hc, toZones, htz, dl, hdl, (Except.ok.inj h).symm⟩
  · exact absurd h bind_throw_ne_ok

/-- The lines of one configured zone: the local zone's lines for the local
zone, an ordinary zone's lines for any other. -/
theorem linesOf_ok {params : Value} {zs : List Rule.TableLine}
    (h : linesOf tree zone params = .ok zs) :
    ∃ rules, params.getD "rules" (.dict []) = .ok rules ∧
      ((zone = .str localZone ∧ localLines tree zone rules = .ok zs) ∨
        (zone ≠ .str localZone ∧ ∃ allowIntra, zoneLines tree zone rules allowIntra = .ok zs)) := by
  unfold linesOf at h
  obtain ⟨rules, hr, h⟩ := except_bind_eq_ok.mp h
  refine ⟨rules, hr, ?_⟩
  cases hl : zone == .str localZone with
  | true =>
      simp only [hl, if_true] at h
      exact .inl ⟨by simpa using hl, h⟩
  | false =>
      simp only [hl, Bool.false_eq_true, if_false] at h
      obtain ⟨allowIntra, -, h⟩ := except_bind_eq_ok.mp h
      exact .inr ⟨by simpa using hl, _, h⟩

/-- An ordinary zone's lines are built under its name. -/
theorem zoneLines_name {rules : Value} {allowIntra : Bool} {zs : List Rule.TableLine}
    (h : zoneLines tree zone rules allowIntra = .ok zs) : ∃ n, name tree zone = .ok n := by
  unfold zoneLines at h
  obtain ⟨n, hn, -⟩ := except_bind_eq_ok.mp h
  exact ⟨n, hn⟩

end Entries

/-- Two names without `_`, each followed by `_` and a rest, are told apart by
the first `_`. -/
theorem append_underscore_inj {a b x y : String} (ha : '_' ∉ a.toList) (hb : '_' ∉ b.toList)
    (h : a ++ "_" ++ x = b ++ "_" ++ y) : a = b ∧ x = y := by
  have hl : a.toList ++ '_' :: x.toList = b.toList ++ '_' :: y.toList := by
    simpa [String.toList_append] using congrArg String.toList h
  rcases List.append_eq_append_iff.mp hl with ⟨c, hb', hc⟩ | ⟨c, ha', hc⟩
  · cases c with
    | nil =>
        exact ⟨String.toList_inj.mp (by simpa using hb'.symm),
          String.toList_inj.mp (by simpa using hc)⟩
    | cons d c =>
        obtain ⟨rfl, -⟩ := List.cons.inj hc
        exact absurd (hb' ▸ List.mem_append_right _ List.mem_cons_self) hb
  · cases c with
    | nil =>
        exact ⟨String.toList_inj.mp (by simpa using ha'),
          String.toList_inj.mp (by simpa using hc.symm)⟩
    | cons d c =>
        obtain ⟨rfl, -⟩ := List.cons.inj hc
        exact absurd (ha' ▸ List.mem_append_right _ List.mem_cons_self) ha

end Zone
end Firewall
