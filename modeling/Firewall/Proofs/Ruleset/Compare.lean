import Mathlib.Data.List.TakeWhile
import Firewall.Deploy
import Firewall.Proofs.Diff.Unified
import Firewall.Proofs.Host.World

/-!
# A diff reports a change exactly when there is one

Rulesets are compared in a normal form (`Normal.apply`), and their diff is
empty exactly when the normal forms agree (`diff_eq_nil_iff`), in either
direction; a diff that is empty prints as nothing, and one that is not prints
its header (`printable_diff_eq_empty_iff`).

The normal forms, read as rules:

- packet filter rulesets lose their comment lines and the counter
  `[digits:digits]` that ends a chain line (`chainsStripped`);
- ip set rulesets have each maximal run of `add` lines sorted (`runsSorted`),
  which is what the sorting fold computes (`sortEntries_eq_runsSorted`).

The counter is cut from the first colon of the line on, whatever the line, so
the two readings agree only on lines where that colon is the one that opens a
chain line (`Kind.Plain`): on `-A x:y[1:2]` the cut leaves `:y`, and two
different rules compare equal.
-/

namespace Firewall
namespace Ruleset

section Counters

/-- The characters end in a counter `[p:b]`, two runs of ASCII digits, after
`body`. -/
def EndsInCounter (cs body : List Char) : Prop :=
  ∃ high low : List Char, high ≠ [] ∧ low ≠ [] ∧ (∀ c ∈ high ++ low, c.isDigit) ∧
    cs = body ++ '[' :: high ++ ':' :: low ++ [']']

/-- The counter found is one that ends the characters. -/
theorem endsInCounter_of_counterStart {cs : List Char} {q : Nat} (h : counterStart cs = some q) :
    ∃ body, body.length = q ∧ EndsInCounter cs body := by
  unfold counterStart at h
  dsimp only at h
  split at h
  · rename_i rest hrev
    split at h
    · rename_i rest' hlow
      split at h
      · rename_i before hhigh
        split at h
        · cases h
        · rename_i hne
          obtain rfl := Option.some.inj h
          simp only [Bool.or_eq_true, List.isEmpty_iff, not_or] at hne
          have hrest : rest = rest.takeWhile Char.isDigit ++ ':' :: rest' := by
            rw [← hlow, Rule.drop_length_takeWhile, List.takeWhile_append_dropWhile]
          have hrest' : rest' = rest'.takeWhile Char.isDigit ++ '[' :: before := by
            rw [← hhigh, Rule.drop_length_takeWhile, List.takeWhile_append_dropWhile]
          refine ⟨before.reverse, by simp, (rest'.takeWhile Char.isDigit).reverse,
            (rest.takeWhile Char.isDigit).reverse, by simpa using hne.2, by simpa using hne.1,
            fun c hc => ?_, ?_⟩
          · simp only [List.mem_append, List.mem_reverse] at hc
            rcases hc with hc | hc <;> exact List.mem_takeWhile_imp hc
          · calc cs = (']' :: rest).reverse := by rw [← hrev, List.reverse_reverse]
              _ = (']' :: (rest.takeWhile Char.isDigit ++
                    ':' :: (rest'.takeWhile Char.isDigit ++ '[' :: before))).reverse := by
                rw [← hrest', ← hrest]
              _ = _ := by simp
      · cases h
    · cases h
  · cases h

/-- A counter that ends the characters is found. -/
theorem counterStart_of_endsInCounter {cs body : List Char} (h : EndsInCounter cs body) :
    counterStart cs = some body.length := by
  obtain ⟨high, low, hhigh, hlow, hdigits, rfl⟩ := h
  have hl : ∀ c ∈ low.reverse, c.isDigit := fun c hc =>
    hdigits c (List.mem_append_right _ (List.mem_reverse.mp hc))
  have hh : ∀ c ∈ high.reverse, c.isDigit := fun c hc =>
    hdigits c (List.mem_append_left _ (List.mem_reverse.mp hc))
  unfold counterStart
  simp [List.takeWhile_append_of_pos hl, List.takeWhile_append_of_pos hh, hhigh, hlow]

/-- `counterStart` finds exactly the counter that ends the characters. -/
theorem counterStart_eq_some_iff {cs : List Char} {q : Nat} :
    counterStart cs = some q ↔ ∃ body, body.length = q ∧ EndsInCounter cs body := by
  constructor
  · exact endsInCounter_of_counterStart
  · rintro ⟨body, rfl, h⟩
    exact counterStart_of_endsInCounter h

/-- A line without the counter that ends it, if it ends in one. -/
def withoutCounter (l : String) : String :=
  match counterStart l.toList with
  | some q => String.ofList (l.toList.take q)
  | none => l

/-- A line whose counter is cut alike from its first colon and by its kind of
line: a comment, or a line with no line feed where, if it ends in a counter, a
chain line (one opening with a colon) has text between its colon and the
counter, and any other line has no colon before the character ahead of it. -/
def CounterPlain (l : String) : Prop :=
  l.startsWith "#" ∨
    ('\n' ∉ l.toList ∧ ∀ q ∈ counterStart l.toList,
      if l.startsWith ":" then 2 ≤ q else ':' ∉ l.toList.take (q - 1))

instance (l : String) : Decidable (CounterPlain l) := inferInstanceAs (Decidable (_ ∨ _))

theorem counterColon_of_no_feed {cs : List Char} (hn : '\n' ∉ cs) (q : Nat) :
    counterColon cs q = (List.range' 0 (q - 1)).find? fun p => cs[p]? == some ':' := by
  have hstart : (cs.take q).reverse.findIdx? (· == '\n') = none := by
    rw [List.findIdx?_eq_none_iff]
    intro c hc
    rw [beq_eq_false_iff_ne]
    rintro rfl
    exact hn (List.mem_of_mem_take (List.mem_reverse.mp hc))
  unfold counterColon
  dsimp only
  rw [hstart, Nat.sub_zero]

theorem head_of_startsWith_colon {l : String} (h : l.startsWith ":") : l.toList[0]? = some ':' := by
  obtain ⟨t, ht⟩ := String.startsWith_string_iff.mp h
  rw [← ht]
  rfl

/-- On a line with no line feed, cutting from the first colon strips the
counter of a chain line that has text between its colon and the counter, and
leaves alone a line with no colon before the character ahead of its counter. -/
theorem cutCounters_eq {l : String} (hn : '\n' ∉ l.toList)
    (hq : ∀ q ∈ counterStart l.toList,
      if l.startsWith ":" then 2 ≤ q else ':' ∉ l.toList.take (q - 1)) :
    cutCounters l = if l.startsWith ":" then withoutCounter l else l := by
  have hbody : (if l.toList.getLast? == some '\n' then l.toList.dropLast else l.toList) =
      l.toList := Rule.lineBody_of_no_feed hn
  unfold cutCounters withoutCounter
  dsimp only
  rw [hbody]
  cases hc : counterStart l.toList with
  | none => simp
  | some q =>
    have hq := hq q hc
    dsimp only
    rw [counterColon_of_no_feed hn]
    split at hq
    · rename_i hchain
      -- the colon that opens the chain line is the first one met
      have h0 := head_of_startsWith_colon hchain
      rw [show q - 1 = (q - 2) + 1 by omega, List.range'_succ,
        List.find?_cons_of_pos (by simp [h0])]
      simp [hchain]
    · rename_i hchain
      rw [List.find?_eq_none.mpr]
      · simp [hchain]
      · intro p hp hcolon
        have hlt : p < q - 1 := by
          simp only [List.mem_range'_1] at hp
          omega
        have hp' : l.toList[p]? = some ':' := by simpa using hcolon
        exact hq (List.mem_of_getElem? ((List.getElem?_take_of_lt hlt).trans hp'))

/-- The form packet filter rulesets are compared in: comment lines dropped and
the counter of each chain line stripped. -/
def chainsStripped (lines : List String) : List String :=
  (lines.filter fun l => !l.startsWith "#").map fun l =>
    if l.startsWith ":" then withoutCounter l else l

theorem withoutCounters_eq_chainsStripped {lines : List String}
    (h : ∀ l ∈ lines, CounterPlain l) :
    Normal.withoutCounters.apply lines = chainsStripped lines := by
  unfold Normal.apply chainsStripped
  apply List.map_congr_left
  intro l hl
  obtain ⟨hmem, hkeep⟩ := List.mem_filter.mp hl
  rcases h l hmem with hcomment | ⟨hn, hq⟩
  · simp [hcomment] at hkeep
  · exact cutCounters_eq hn hq

end Counters

section Entries

/-- An `add` line of an ip set ruleset. -/
def isEntry (l : String) : Bool := l.startsWith "add "

/-- The form ip set rulesets are compared in: each maximal run of `add` lines
sorted by code points, every other line in place. -/
def runsSorted : List String → List String
  | [] => []
  | l :: ls =>
    if isEntry l then
      (l :: ls.takeWhile isEntry).mergeSort Text.codeOrder ++ runsSorted (ls.dropWhile isEntry)
    else l :: runsSorted ls
termination_by ls => ls.length
decreasing_by
  all_goals
    have := List.length_dropWhile_le isEntry ls
    simp only [List.length_cons]
    omega

/-- The lines open with a run of `add` lines, maybe empty. -/
theorem runsSorted_eq_run (ls : List String) :
    runsSorted ls =
      (ls.takeWhile isEntry).mergeSort Text.codeOrder ++ runsSorted (ls.dropWhile isEntry) := by
  cases ls with
  | nil => simp [runsSorted]
  | cons l ls =>
    by_cases hl : isEntry l
    · rw [runsSorted, if_pos hl, List.takeWhile_cons_of_pos hl, List.dropWhile_cons_of_pos hl]
    · rw [List.takeWhile_cons_of_neg hl, List.dropWhile_cons_of_neg hl]
      simp

/-- What the sorting fold leaves, from any lines done and run under way: the
run, continued by the `add` lines ahead, sorted, then the rest in form. -/
theorem foldl_entryStep :
    ∀ (ls : List String) (acc : List String × List String),
      (ls.foldl entryStep acc).1 ++ (ls.foldl entryStep acc).2.mergeSort Text.codeOrder =
        acc.1 ++ (acc.2 ++ ls.takeWhile isEntry).mergeSort Text.codeOrder ++
          runsSorted (ls.dropWhile isEntry)
  | [], acc => by simp [runsSorted]
  | l :: ls, acc => by
    rw [List.foldl_cons, foldl_entryStep ls]
    by_cases hl : isEntry l
    · have hstep : entryStep acc l = (acc.1, acc.2 ++ [l]) := if_pos hl
      rw [hstep, List.takeWhile_cons_of_pos hl, List.dropWhile_cons_of_pos hl]
      simp
    · have hstep : entryStep acc l = (acc.1 ++ acc.2.mergeSort Text.codeOrder ++ [l], []) :=
        if_neg hl
      rw [hstep, List.takeWhile_cons_of_neg hl, List.dropWhile_cons_of_neg hl, runsSorted,
        if_neg hl, runsSorted_eq_run ls]
      simp

/-- Sorting the entries sorts each maximal run of `add` lines. -/
theorem sortEntries_eq_runsSorted (lines : List String) : sortEntries lines = runsSorted lines := by
  have h := foldl_entryStep lines ([], [])
  rw [runsSorted_eq_run lines]
  simpa [sortEntries] using h

end Entries

section Kinds

/-- The form the rulesets of a kind are compared in. -/
def Kind.compared : Kind → List String → List String
  | .iptables | .ip6tables => chainsStripped
  | .ipsets => runsSorted

/-- The lines on which the normal form of a kind is its compared form: those
whose counter is read alike for packet filters, all lines for ip sets. -/
def Kind.Plain : Kind → String → Prop
  | .iptables | .ip6tables => CounterPlain
  | .ipsets => fun _ => True

instance : (kind : Kind) → (l : String) → Decidable (kind.Plain l)
  | .iptables, l => inferInstanceAs (Decidable (CounterPlain l))
  | .ip6tables, l => inferInstanceAs (Decidable (CounterPlain l))
  | .ipsets, _ => inferInstanceAs (Decidable True)

theorem normal_apply_eq_compared (kind : Kind) {lines : List String}
    (h : ∀ l ∈ lines, kind.Plain l) : kind.normal.apply lines = kind.compared lines := by
  cases kind with
  | iptables => exact withoutCounters_eq_chainsStripped h
  | ip6tables => exact withoutCounters_eq_chainsStripped h
  | ipsets => exact sortEntries_eq_runsSorted lines

end Kinds

section Diffs

/-- The diff is empty exactly when the normal forms agree, in either direction. -/
theorem diff_eq_nil_iff (normal : Normal) (rules running : List String) (reverse : Bool) :
    diff normal rules running reverse = [] ↔ normal.apply rules = normal.apply running := by
  unfold diff
  cases reverse with
  | false => exact Diff.unified_eq_nil_iff
  | true => exact Diff.unified_eq_nil_iff.trans eq_comm

/-- A diff that is not empty starts with its header. -/
theorem diff_head {normal : Normal} {rules running : List String} {reverse : Bool}
    (h : diff normal rules running reverse ≠ []) :
    (diff normal rules running reverse).head? = some "--- " := by
  unfold diff at *
  cases reverse with
  | false => exact Diff.unified_head h
  | true => exact Diff.unified_head h

/-- Lines that open with the diff header print as something under any header;
no lines print as nothing. -/
theorem printable_eq_empty_iff {lines : List String} (header : String) (indent : Int)
    (hhead : lines ≠ [] → lines.head? = some "--- ") :
    printable lines header indent = "" ↔ lines = [] := by
  have hcontent : ("\n".intercalate lines).isEmpty ↔ lines = [] := by
    refine ⟨fun h => ?_, fun h => by simp [h]⟩
    by_contra hne
    obtain ⟨rest, rfl⟩ : ∃ rest, lines = "--- " :: rest := by
      cases lines with
      | nil => contradiction
      | cons first rest => exact ⟨rest, by simpa using hhead hne⟩
    have hfeed := congrArg String.toList (String.isEmpty_iff.mp h)
    simp at hfeed
  unfold printable
  dsimp only
  split
  · rename_i h
    exact ⟨fun _ => hcontent.mp h, fun _ => rfl⟩
  · rename_i h
    refine ⟨fun hprint => ?_, fun hl => absurd (hcontent.mpr hl) h⟩
    have hlength := congrArg String.length hprint
    simp at hlength

/-- A diff prints as nothing exactly when it is empty. -/
theorem printable_diff_eq_empty_iff (normal : Normal) (rules running : List String)
    (reverse : Bool) (header : String) (indent : Int) :
    printable (diff normal rules running reverse) header indent = "" ↔
      diff normal rules running reverse = [] :=
  printable_eq_empty_iff header indent diff_head

/-- On lines read alike, the diff is empty exactly when the compared forms agree. -/
theorem diff_eq_nil_iff_compared (kind : Kind) {rules running : List String} (reverse : Bool)
    (h : ∀ l ∈ rules ++ running, kind.Plain l) :
    diff kind.normal rules running reverse = [] ↔ kind.compared rules = kind.compared running := by
  have hrules := normal_apply_eq_compared kind fun l hl => h l (List.mem_append_left _ hl)
  have hrunning := normal_apply_eq_compared kind fun l hl => h l (List.mem_append_right _ hl)
  rw [diff_eq_nil_iff, hrules, hrunning]

end Diffs

end Ruleset

namespace Host

theorem running_run_memory {c : Commands} {w : World} {k : Kernel} (hk : w.host = .memory k)
    (kind : Ruleset.Kind) : Act.run (running c kind) w = (.ok (k.running kind), w) := by
  unfold running
  rw [Act.run_bind, Act.run_get]
  simp only [hk]
  rfl

end Host

namespace Deploy

open Ruleset

/-- The ruleset of a kind in a snapshot. -/
def Snapshot.lines (s : Snapshot) : Kind → List String
  | .iptables => s.iptables
  | .ip6tables => s.ip6tables
  | .ipsets => s.ipsets

section Memory

variable {cfg : Config} {w : World} {k : Kernel}

theorem diffOf_run_memory (hk : w.host = .memory k) (kind : Kind) (rules : List String)
    (reverse : Bool) :
    Act.run (diffOf cfg kind (some rules) reverse) w =
      (.ok (diff kind.normal rules (k.running kind) reverse), w) := by
  unfold diffOf
  rw [Act.run_bind, Host.running_run_memory hk]
  rfl

/-- Against an in-memory kernel, the diff text prints the diffs of the three
rulesets against the running ones, and changes nothing. -/
theorem diffText_run_memory (hk : w.host = .memory k) (s : Snapshot) (reverse : Bool) :
    Act.run (diffText cfg (some s) reverse) w =
      (.ok (printable (diff Kind.iptables.normal s.iptables (k.running .iptables) reverse)
          "iptables changes:" 4 ++
        printable (diff Kind.ip6tables.normal s.ip6tables (k.running .ip6tables) reverse)
          "ip6tables changes:" 4 ++
        printable (diff Kind.ipsets.normal s.ipsets (k.running .ipsets) reverse)
          "ipsets changes:" 4), w) := by
  unfold diffText
  simp only [Option.map_some, Act.run_bind, diffOf_run_memory hk, Act.run_pure]

/-- The diff text is empty exactly when each of the three diffs is. -/
theorem diffText_eq_empty_iff (s : Snapshot) (reverse : Bool) :
    printable (diff Kind.iptables.normal s.iptables (k.running .iptables) reverse)
          "iptables changes:" 4 ++
        printable (diff Kind.ip6tables.normal s.ip6tables (k.running .ip6tables) reverse)
          "ip6tables changes:" 4 ++
        printable (diff Kind.ipsets.normal s.ipsets (k.running .ipsets) reverse)
          "ipsets changes:" 4 = "" ↔
      ∀ kind : Kind, diff kind.normal (s.lines kind) (k.running kind) reverse = [] := by
  simp only [String.append_eq_empty_iff, printable_diff_eq_empty_iff]
  constructor
  · rintro ⟨⟨h4, h6⟩, hsets⟩ kind
    cases kind
    · exact h4
    · exact h6
    · exact hsets
  · intro h
    exact ⟨⟨h .iptables, h .ip6tables⟩, h .ipsets⟩

end Memory

end Deploy

namespace Ruleset

/-- A diff reports a change exactly when there is one.  On lines whose counters
are read alike (`Kind.Plain`), the diff of a ruleset against the running one is
empty, and prints as nothing under any header, exactly when the two agree in the
form their kind is compared in, whichever way the diff runs; and against an
in-memory kernel the diff text of three rulesets is empty exactly when each
agrees with the running one. -/
theorem diff_empty_iff_compared_equal (reverse : Bool) :
    (∀ (kind : Kind) (rules running : List String), (∀ l ∈ rules ++ running, kind.Plain l) →
      (diff kind.normal rules running reverse = [] ↔
          kind.compared rules = kind.compared running) ∧
        ∀ header : String, printable (diff kind.normal rules running reverse) header 4 = "" ↔
          kind.compared rules = kind.compared running) ∧
    ∀ (cfg : Config) (s : Deploy.Snapshot) (w : World) (k : Kernel),
      w.host = .memory k → (∀ kind : Kind, ∀ l ∈ s.lines kind ++ k.running kind, kind.Plain l) →
      ∃ text, Act.run (Deploy.diffText cfg (some s) reverse) w = (.ok text, w) ∧
        (text = "" ↔ ∀ kind : Kind, kind.compared (s.lines kind) = kind.compared (k.running kind)) := by
  refine ⟨fun kind rules running h => ⟨diff_eq_nil_iff_compared kind reverse h, fun header => ?_⟩, ?_⟩
  · exact (printable_diff_eq_empty_iff _ _ _ reverse header 4).trans
      (diff_eq_nil_iff_compared kind reverse h)
  · intro cfg s w k hk h
    refine ⟨_, Deploy.diffText_run_memory hk s reverse, ?_⟩
    rw [Deploy.diffText_eq_empty_iff]
    exact forall_congr' fun kind => diff_eq_nil_iff_compared kind reverse (h kind)

/-- Saved rules with a comment and counters, and the running ones counted
further. -/
def savedCounted : Deploy.Snapshot :=
  ⟨["# saved", "*filter", ":INPUT ACCEPT [1:2]", "-A INPUT -p tcp --dport 22:23 -j ACCEPT",
      "COMMIT"], [], ["create s hash:ip", "add s 1.2.3.5", "add s 1.2.3.4"]⟩

/-- A kernel running the saved rules, counted further, and the set with its
entries listed the other way round. -/
def recounted : Kernel :=
  ⟨["*filter", ":INPUT ACCEPT [7:80]", "-A INPUT -p tcp --dport 22:23 -j ACCEPT", "COMMIT"], [],
    [⟨"s", "hash:ip", ["1.2.3.4", "1.2.3.5"]⟩], []⟩

theorem savedCounted_unchanged :
    (∀ l ∈ savedCounted.iptables ++ recounted.iptables, Kind.iptables.Plain l) ∧
      (diff Kind.iptables.normal savedCounted.iptables recounted.iptables true = [] ↔
        Kind.iptables.compared savedCounted.iptables =
          Kind.iptables.compared recounted.iptables) ∧
      (∀ kind : Kind, ∀ l ∈ savedCounted.lines kind ++ recounted.running kind, kind.Plain l) ∧
      ∃ text, Act.run (Deploy.diffText default (some savedCounted) true)
          ⟨.memory recounted, default, default, [], [], "", []⟩ =
          (.ok text, ⟨.memory recounted, default, default, [], [], "", []⟩) ∧
        (text = "" ↔ ∀ kind : Kind,
          kind.compared (savedCounted.lines kind) = kind.compared (recounted.running kind)) := by
  have hplain : ∀ kind : Kind, ∀ l ∈ savedCounted.lines kind ++ recounted.running kind,
      kind.Plain l := by
    intro kind
    cases kind <;> decide +kernel
  have h := diff_empty_iff_compared_equal true
  exact ⟨hplain .iptables, (h.1 .iptables _ _ (hplain .iptables)).1, hplain,
    h.2 default savedCounted ⟨.memory recounted, default, default, [], [], "", []⟩ recounted rfl
      hplain⟩

/-- Two rules that differ before a colon compare equal once they end in a
counter: the cut keeps `:y` of both. -/
theorem colonRules_compare_equal :
    diff Kind.iptables.normal ["-A x:y[1:2]"] ["-A z:y[1:2]"] false = [] ∧
      Kind.iptables.compared ["-A x:y[1:2]"] ≠ Kind.iptables.compared ["-A z:y[1:2]"] :=
  ⟨(diff_eq_nil_iff _ _ _ false).mpr (by decide +kernel), by decide +kernel⟩

end Ruleset
end Firewall
