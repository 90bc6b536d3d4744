import Firewall.Proofs.Rule.Objects
import Mathlib

/-!
# Expanding zone references

A rule text names the interfaces of a zone as `%{zone}`.  Zone expansion
replaces the leftmost reference by each interface of the zone in turn and
expands the results again.  Read statically this is a product: the references
of the rule are found once, left to right (`refsOf`), and every choice of one
interface per reference, the leftmost varying slowest, fills them
(`zoneProduct`).

Main statement: `expandZones_eq_product`.  The two readings agree on rules
that are `ZoneExpandable`: one line, fewer references than the nesting limit,
interfaces that start with a character other than `{` for a reference right
after a `%`, and every referenced zone's interfaces a list whose texts hold
neither `%` nor a line feed.  Expanding a rule, objects first,
applies this expansion to each result of the object expansion in turn.

Outside those rules the two readings part (`zoneExpansion_departs_from_product`):
interfaces given as one text are read character by character; and the
expansion reads what each substitution made, so a line feed in an interface
ends the line and the later references stay as they are, an empty interface
between a `%` and a `{` opens a reference that the rule did not have, and a
rule with as many references as the nesting limit runs out of nesting.

The proof follows the recursion with `ZoneFilling` as its invariant between
the text filled so far, which opens no reference, and the rest.
-/

namespace Firewall
namespace Rule

section References

variable (σ : Char)

/-- The references opened by `σ` in a rule text, leftmost first, each read in
the text after the one before, at most `fuel` of them. -/
def refsWith : Nat → String → List Reference
  | 0, _ => []
  | fuel + 1, s =>
    match Reference.find? σ s with
    | none => []
    | some r => r :: refsWith fuel (String.ofList r.after)

/-- The references opened by `σ` in a rule text; each is read in a shorter text
than the last, so the length of the text bounds how many there are. -/
def refsOf (s : String) : List Reference := refsWith σ (s.length + 1) s

variable {σ}

theorem refsWith_eq : ∀ {n m : Nat} {s : String}, s.length < n → s.length < m →
    refsWith σ n s = refsWith σ m s
  | 0, _, _, hn, _ => absurd hn (Nat.not_lt_zero _)
  | _, 0, _, _, hm => absurd hm (Nat.not_lt_zero _)
  | n + 1, m + 1, s, hn, hm => by
    unfold refsWith
    cases hr : Reference.find? σ s with
    | none => rfl
    | some r =>
      have hlt := after_length_lt hr
      dsimp only
      rw [refsWith_eq (m := m) (by omega) (by omega)]

theorem refsOf_of_none {s : String} (h : Reference.find? σ s = none) : refsOf σ s = [] := by
  rw [refsOf, refsWith, h]

theorem refsOf_of_some {s : String} {r : Reference} (h : Reference.find? σ s = some r) :
    refsOf σ s = r :: refsOf σ (String.ofList r.after) := by
  have hlt := after_length_lt h
  rw [refsOf, refsWith, h, refsOf, refsWith_eq (by omega) (by omega)]

end References

section Zones

variable (tree : Value)

/-- The interfaces of a zone as texts, when its `interfaces` entry is a list. -/
def zoneTexts (z : String) : Option (List String) :=
  match tree.path ["zones", z, "interfaces"] with
  | .ok (.list xs) => some (xs.map Value.text)
  | _ => none

/-- The interfaces of a zone as texts; none when they are no list. -/
def interfaces (z : String) : List String := (zoneTexts tree z).getD []

/-- The zone expansion of a rule read statically: the rule filled with every
choice of one interface per reference, the leftmost varying slowest. -/
def zoneProduct (s : String) : List String :=
  (choicesOver (interfaces tree) (refsOf '%' s)).map fun c => fillOver (refsOf '%' s) c s

/-- A rule whose zone references expand as a product: one line, fewer
references than the nesting limit, interfaces that start with a character
other than `{` for a reference right after a `%`, and every referenced zone's
interfaces a list whose texts hold neither `%` nor a line feed. -/
structure ZoneExpandable (s : String) : Prop where
  oneLine : '\n' ∉ s.toList
  apart : ∀ r ∈ refsOf '%' s, r.before.getLast? = some '%' →
    ∀ i ∈ interfaces tree r.key, i.toList.head? ≠ none ∧ i.toList.head? ≠ some '{'
  shallow : (refsOf '%' s).length < depthLimit
  listed : ∀ r ∈ refsOf '%' s, (zoneTexts tree r.key).isSome
  plain : ∀ r ∈ refsOf '%' s, ∀ i ∈ interfaces tree r.key, '%' ∉ i.toList ∧ '\n' ∉ i.toList

/-- What holds at each stage of expanding the zone references of a rule,
between the text `u` filled so far and the rest `a`: one line, no reference
opened by `u`, interfaces that start with a character other than `{` for a
reference right after a `%` in `a`, and every referenced zone's interfaces
listed as texts without `%` or line feed. -/
structure ZoneFilling (u a : String) : Prop where
  oneLine : '\n' ∉ (u ++ a).toList
  noOpen : NoOpen '%' u.toList
  apart : ∀ r ∈ refsOf '%' a, r.before.getLast? = some '%' →
    ∀ i ∈ interfaces tree r.key, i.toList.head? ≠ none ∧ i.toList.head? ≠ some '{'
  listed : ∀ r ∈ refsOf '%' a, (zoneTexts tree r.key).isSome
  plain : ∀ r ∈ refsOf '%' a, ∀ i ∈ interfaces tree r.key, '%' ∉ i.toList ∧ '\n' ∉ i.toList

variable {tree}

theorem path_of_zoneTexts {z : String} (h : (zoneTexts tree z).isSome) :
    ∃ xs, tree.path ["zones", z, "interfaces"] = .ok (.list xs) ∧ interfaces tree z = xs.map Value.text := by
  unfold interfaces zoneTexts at *
  split at h
  · rename_i xs hxs
    exact ⟨xs, hxs, rfl⟩
  · cases h

/-- Feeding items that each produce a list without fault produces the lists one after another. -/
theorem feed_ofList {α β : Type} {f : α → Run β} {g : α → List β} :
    ∀ {xs : List α}, (∀ x ∈ xs, f x = Run.ofList (g x)) → Run.feed f xs = Run.ofList (xs.flatMap g)
  | [], _ => rfl
  | x :: xs, h => by
    have hrest := feed_ofList (fun y hy => h y (List.mem_cons_of_mem _ hy))
    simp [Run.feed, h x List.mem_cons_self, hrest, Run.ofList]

namespace ZoneFilling

variable {u a : String}

theorem no_feed (h : ZoneFilling tree u a) : '\n' ∉ u.toList ∧ '\n' ∉ a.toList := by
  simpa [String.toList_append, not_or] using h.oneLine

/-- Filling the next reference with one of its zone's interfaces keeps the invariant. -/
theorem next (h : ZoneFilling tree u a) {r : Reference} (hr : Reference.find? '%' a = some r)
    {i : String} (hi : i ∈ interfaces tree r.key) :
    ZoneFilling tree (u ++ String.ofList r.before ++ i) (String.ofList r.after) := by
  have hrefs := refsOf_of_some hr
  have hmem : r ∈ refsOf '%' a := hrefs ▸ List.mem_cons_self
  have htail : ∀ r' ∈ refsOf '%' (String.ofList r.after), r' ∈ refsOf '%' a :=
    fun r' h' => hrefs ▸ List.mem_cons_of_mem _ h'
  obtain ⟨hpercent, hfeed⟩ := h.plain r hmem i hi
  obtain ⟨hu, ha⟩ := h.no_feed
  have hsplit := find?_split_line ha hr
  refine ⟨?_, ?_, fun r' h' => h.apart r' (htail r' h'), fun r' h' => h.listed r' (htail r' h'),
    fun r' h' => h.plain r' (htail r' h')⟩
  · have hbefore : '\n' ∉ r.before := fun hm => ha (by simp [hsplit, hm])
    have hafter : '\n' ∉ r.after := fun hm => ha (by simp [hsplit, hm])
    simp [String.toList_append, hu, hbefore, hfeed, hafter]
  · exact noOpen_fill h.noOpen hr hpercent fun hlast => h.apart r hmem hlast i hi

end ZoneFilling

/-- From any stage the invariant holds at, with enough nesting left, zone
expansion fills the rest with every choice of interfaces. -/
theorem expandZonesWith_filling :
    ∀ (fuel : Nat) {u a : String}, ZoneFilling tree u a → (refsOf '%' a).length < fuel →
      expandZonesWith tree fuel (u ++ a) =
        Run.ofList ((choicesOver (interfaces tree) (refsOf '%' a)).map fun c =>
          u ++ fillOver (refsOf '%' a) c a)
  | 0, _, _, _, hfuel => absurd hfuel (Nat.not_lt_zero _)
  | fuel + 1, u, a, h, hfuel => by
    unfold expandZonesWith
    rw [find?_append h.noOpen h.oneLine]
    cases hr : Reference.find? '%' a with
    | none => simp [refsOf_of_none hr, choicesOver]
    | some r =>
      have hrefs := refsOf_of_some hr
      have hmem : r ∈ refsOf '%' a := hrefs ▸ List.mem_cons_self
      obtain ⟨xs, hpath, hifaces⟩ := path_of_zoneTexts (h.listed r hmem)
      have hfuel' : (refsOf '%' (String.ofList r.after)).length < fuel := by
        rw [hrefs, List.length_cons] at hfuel
        omega
      have hkey : ({ r with before := u.toList ++ r.before } : Reference).key = r.key := rfl
      simp only [Option.map_some]
      rw [hkey, hpath]
      change Run.feed _ xs = _
      rw [hrefs, choicesOver, hifaces, List.map_flatMap, List.flatMap_map]
      apply feed_ofList
      intro x hx
      -- the interface fills the reference, and the rest expands from the next stage
      have hnext := h.next hr (hifaces ▸ List.mem_map_of_mem hx)
      have hfill : ({ r with before := u.toList ++ r.before } : Reference).fill x.text =
          u ++ String.ofList r.before ++ x.text ++ String.ofList r.after := by
        simp [Reference.fill, String.ofList_append]
      rw [hfill, expandZonesWith_filling fuel hnext hfuel', List.map_map]
      congr 2
      funext c
      simp only [Function.comp_apply, fillOver, String.append_assoc]

variable (tree)

/-- Zone expansion is the ordered product of the zones' interfaces.  A rule
that is `ZoneExpandable` expands to one rule per choice of one interface for
each of its references, in lexicographic order with the leftmost reference
varying slowest, each the rule with every reference replaced by its choice;
and expanding a rule, objects first, applies this expansion, in order, to each
result of the object expansion, ending as the object expansion ends. -/
theorem expandZones_eq_product :
    (∀ s, ZoneExpandable tree s → expandZones tree (.str s) = Run.ofList (zoneProduct tree s)) ∧
      ∀ rule, (∀ s ∈ (expandObjects tree .iptables rule).items, ZoneExpandable tree s) →
        expand tree rule = ⟨(expandObjects tree .iptables rule).items.flatMap (zoneProduct tree),
          (expandObjects tree .iptables rule).fault⟩ := by
  have hzones : ∀ s, ZoneExpandable tree s → expandZonesWith tree depthLimit s =
      Run.ofList (zoneProduct tree s) := by
    intro s h
    have hrun := expandZonesWith_filling depthLimit (u := "")
      ⟨by simpa using h.oneLine, noOpen_nil, h.apart, h.listed, h.plain⟩ h.shallow
    simpa [zoneProduct] using hrun
  refine ⟨hzones, fun rule h => ?_⟩
  -- every object result expands without fault, so the run ends as the object expansion does
  have hfeed := feed_ofList (fun s hs => hzones s (h s hs))
  simp [expand, Run.bind, hfeed, Run.ofList]

/-- Two zones of two interfaces each, as the forwarding example of the tests has them. -/
def lanDmzZones : Value :=
  Value.record [("zones", Value.record [
    ("lan", Value.record [("interfaces", .list [.str "eth0", .str "eth1"])]),
    ("dmz", Value.record [("interfaces", .list [.str "eth2", .str "eth3"])])])]

theorem lanDmz_forward_expands :
    ZoneExpandable lanDmzZones "-A FORWARD -i %{lan} -o %{dmz} -j ACCEPT" ∧
      expandZones lanDmzZones (.str "-A FORWARD -i %{lan} -o %{dmz} -j ACCEPT") =
        Run.ofList ["-A FORWARD -i eth0 -o eth2 -j ACCEPT", "-A FORWARD -i eth0 -o eth3 -j ACCEPT",
          "-A FORWARD -i eth1 -o eth2 -j ACCEPT", "-A FORWARD -i eth1 -o eth3 -j ACCEPT"] := by
  have h : ZoneExpandable lanDmzZones "-A FORWARD -i %{lan} -o %{dmz} -j ACCEPT" :=
    ⟨by decide +kernel, by decide +kernel, by decide +kernel, by decide +kernel, by decide +kernel⟩
  exact ⟨h, ((expandZones_eq_product lanDmzZones).1 _ h).trans (by decide +kernel)⟩

end Zones

section Exhausted

variable {tree : Value}

/-- With no more nesting left than references to fill, zone expansion runs out of nesting
before it yields anything, as long as every referenced zone has an interface. -/
theorem expandZonesWith_exhausted :
    ∀ (fuel : Nat) {u a : String}, ZoneFilling tree u a → fuel ≤ (refsOf '%' a).length →
      (∀ r ∈ refsOf '%' a, interfaces tree r.key ≠ []) →
      expandZonesWith tree fuel (u ++ a) = Run.fail .recursion
  | 0, _, _, _, _, _ => rfl
  | fuel + 1, u, a, h, hfuel, hne => by
    unfold expandZonesWith
    rw [find?_append h.noOpen h.oneLine]
    cases hr : Reference.find? '%' a with
    | none => simp [refsOf_of_none hr] at hfuel
    | some r =>
      have hrefs := refsOf_of_some hr
      have hmem : r ∈ refsOf '%' a := hrefs ▸ List.mem_cons_self
      obtain ⟨xs, hpath, hifaces⟩ := path_of_zoneTexts (h.listed r hmem)
      have hkey : ({ r with before := u.toList ++ r.before } : Reference).key = r.key := rfl
      simp only [Option.map_some]
      rw [hkey, hpath]
      change Run.feed _ xs = _
      cases xs with
      | nil => exact absurd hifaces (hne r hmem)
      | cons x xs =>
        -- the first interface already runs out of nesting
        have hnext := h.next hr (by rw [hifaces]; exact List.mem_cons_self)
        have hfill : ({ r with before := u.toList ++ r.before } : Reference).fill x.text =
            u ++ String.ofList r.before ++ x.text ++ String.ofList r.after := by
          simp [Reference.fill, String.ofList_append]
        have hdeep := expandZonesWith_exhausted fuel hnext
          (by rw [hrefs, List.length_cons] at hfuel; omega)
          (fun r' h' => hne r' (hrefs ▸ List.mem_cons_of_mem _ h'))
        rw [Run.feed_cons_of_fault xs (by rw [hfill, hdeep]; rfl), hfill, hdeep]
        rfl

/-- The number of choices is the product of the numbers of interfaces. -/
theorem length_choicesOver (f : String → List String) :
    ∀ refs : List Reference, (choicesOver f refs).length = (refs.map fun r => (f r.key).length).prod
  | [] => rfl
  | r :: refs => by
    simp [choicesOver, List.length_flatMap, length_choicesOver f refs, List.map_const']

/-- A rule of `n` references to the zone `a`, one after another. -/
def repeatedRefs : Nat → String
  | 0 => ""
  | n + 1 => "%{a}" ++ repeatedRefs n

theorem no_feed_repeatedRefs : ∀ n, '\n' ∉ (repeatedRefs n).toList
  | 0 => by simp [repeatedRefs]
  | n + 1 => by simp [repeatedRefs, String.toList_append, no_feed_repeatedRefs n]

/-- The references of `repeatedRefs n`: `n` of them, each to `a` and at the start of what is
left. -/
theorem refsOf_repeatedRefs : ∀ n, (refsOf '%' (repeatedRefs n)).length = n ∧
    ∀ r ∈ refsOf '%' (repeatedRefs n), r.key = "a" ∧ r.before = []
  | 0 => by simp [repeatedRefs, refsOf, refsWith, Reference.find?, lineOf, lineBody, scan]
  | n + 1 => by
    have hline : '\n' ∉ (repeatedRefs (n + 1)).toList := no_feed_repeatedRefs (n + 1)
    have hfind : Reference.find? '%' (repeatedRefs (n + 1)) =
        some ⟨[], ['a'], (repeatedRefs n).toList⟩ := by
      rw [Reference.find?, lineOf_of_no_feed hline]
      simp [repeatedRefs, String.toList_append, scan, closeAfterFirst]
    obtain ⟨hlen, hrefs⟩ := refsOf_repeatedRefs n
    rw [refsOf_of_some hfind, String.ofList_toList]
    refine ⟨by simp [hlen], fun r hr => ?_⟩
    rcases List.mem_cons.1 hr with rfl | hr
    · exact ⟨rfl, rfl⟩
    · exact hrefs r hr

/-- A zone `lan` whose interfaces are given as one text. -/
def textZone : Value :=
  Value.record [("zones", Value.record [("lan", Value.record [("interfaces", .str "eth0")])])]

/-- One zone `a` with the one interface `x`. -/
def singleZone : Value :=
  Value.record [("zones", Value.record [("a", Value.record [("interfaces", .list [.str "x"])])])]

/-- A zone `lan` whose one interface holds a line feed, and a zone `wan`. -/
def feedZones : Value :=
  Value.record [("zones", Value.record [
    ("lan", Value.record [("interfaces", .list [.str "x\ny"])]),
    ("wan", Value.record [("interfaces", .list [.str "z"])])])]

/-- A zone `a` whose one interface is empty, and a zone `b`. -/
def emptyInterfaceZones : Value :=
  Value.record [("zones", Value.record [
    ("a", Value.record [("interfaces", .list [.str ""])]),
    ("b", Value.record [("interfaces", .list [.str "y"])])])]

/-- Where zone expansion is not the product.  Interfaces given as one text are its
characters, not one interface.  Each substituted text is read afresh: a line feed in an
interface ends the line, so the reference after it is left as it stands; an empty interface
between a `%` and a `{` opens a reference to a zone the rule never named; and a rule of as
many references as the nesting limit runs out of nesting, although its one choice of
interfaces is there. -/
theorem zoneExpansion_departs_from_product :
    expandZones textZone (.str "-i %{lan}") = Run.ofList ["-i e", "-i t", "-i h", "-i 0"] ∧
    (expandZones feedZones (.str "%{lan} %{wan}") = Run.ofList ["x\ny %{wan}"] ∧
      zoneProduct feedZones "%{lan} %{wan}" = ["x\ny z"]) ∧
    (expandZones emptyInterfaceZones (.str "%%{a}{b}") = Run.ofList ["y"] ∧
      zoneProduct emptyInterfaceZones "%%{a}{b}" = ["%{b}"]) ∧
    (expandZones singleZone (.str (repeatedRefs depthLimit)) = Run.fail .recursion ∧
      (zoneProduct singleZone (repeatedRefs depthLimit)).length = 1) := by
  obtain ⟨hlen, hrefs⟩ := refsOf_repeatedRefs depthLimit
  have hsingle : interfaces singleZone "a" = ["x"] := by decide +kernel
  refine ⟨by decide +kernel, ⟨by decide +kernel, by decide +kernel⟩,
    ⟨by decide +kernel, by decide +kernel⟩, ?_, ?_⟩
  · have hfill : ZoneFilling singleZone "" (repeatedRefs depthLimit) :=
      ⟨by simpa using no_feed_repeatedRefs depthLimit, noOpen_nil,
        fun r hr => by simp [(hrefs r hr).2],
        fun r hr => by rw [(hrefs r hr).1]; decide +kernel,
        fun r hr i hi => by rw [(hrefs r hr).1, hsingle, List.mem_singleton] at hi; subst hi; simp⟩
    have h := expandZonesWith_exhausted depthLimit hfill (Nat.le_of_eq hlen.symm)
      (fun r hr => by rw [(hrefs r hr).1, hsingle]; simp)
    rw [String.empty_append] at h
    exact h
  · -- every reference has the one interface `x`
    have hones : ((refsOf '%' (repeatedRefs depthLimit)).map fun r =>
        (interfaces singleZone r.key).length) = List.replicate depthLimit 1 := by
      rw [List.eq_replicate_iff]
      refine ⟨by rw [List.length_map, hlen], fun k hk => ?_⟩
      obtain ⟨r, hr, rfl⟩ := List.mem_map.1 hk
      rw [(hrefs r hr).1, hsingle]
      rfl
    simp [zoneProduct, length_choicesOver, hones]

end Exhausted

end Rule
end Firewall
