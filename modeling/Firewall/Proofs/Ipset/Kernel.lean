import Firewall.Host.Kernel
import Firewall.Proofs.Text.Words

/-!
# Running ipset scripts

An ipset script runs line by line on a list of sets and fails as a whole
when one line fails.  Line numbers only name the failing line, so whether a
script runs, and what it leaves, is read off `IpSet.runAll`, which numbers
nothing.

**Lines.**  `runLine_eq_ok_iff` says once what a line that runs does, read
off its words; nothing after it unfolds `runLine`.

**Step lemmas.**  One lemma per command gives what a line does once its
words are known: `create`, `add`, `swap`, `flush` and `destroy` of one set,
and blank lines.

**Invariant.**  `IpSet.Valid`: the sets have distinct names and each name is
a word.  Every line that runs keeps it (`runLine_valid`), so every kernel
built by `Kernel.boot` and changed by `Kernel.load` has it.

**Block scripts.**  The scripts that configurations and `ipset save` produce
introduce each set by one `create` line followed by its `add` lines.
`runAll_script_iff`: such a script runs exactly when its sets are new and
distinct, and then appends them.

**Lookup.**  With distinct names a list of sets is known, up to order, by the
set it gives each name (`IpSet.lookup`, `perm_of_lookup_eq`).
-/

namespace Firewall
namespace IpSet

/-- The sets after running every line of a script, or nothing when a line
fails. -/
def runAll : List IpSet → List String → Option (List IpSet)
  | sets, [] => some sets
  | sets, l :: ls =>
      match runLine sets 0 l with
      | .ok t => runAll t ls
      | .error _ => none

@[simp] theorem runAll_nil (sets : List IpSet) : runAll sets [] = some sets := rfl

/-- A script runs its first line, then the rest on what that line leaves. -/
theorem runAll_cons (sets : List IpSet) (l : String) (ls : List String) :
    runAll sets (l :: ls) = (runLine sets 0 l).toOption.bind (runAll · ls) := by
  show (match runLine sets 0 l with | .ok t => runAll t ls | .error _ => none) = _
  cases runLine sets 0 l <;> rfl

theorem toOption_eq_some_iff {ε α : Type} {x : Except ε α} {a : α} :
    x.toOption = some a ↔ x = .ok a := by
  cases x <;> simp [Except.toOption]

/-- What a line that runs does, read off its words: a blank line changes
nothing, `create` appends a new set, `add` appends an entry to an existing set,
`swap` exchanges the contents of two existing sets, `flush` empties one
existing set or all of them, and `destroy` removes one existing set or all of
them.  This is the one place that reads `runLine`; the lemmas below cite it. -/
theorem runLine_eq_ok_iff {sets t : List IpSet} {n : Nat} {l : String} :
    runLine sets n l = .ok t ↔
      (Text.words l = [] ∧ sets = t) ∨
      (∃ name spec, Text.words l = "create" :: name :: spec ∧ exists_ sets name = false ∧
        sets ++ [⟨name, " ".intercalate spec, []⟩] = t) ∨
      (∃ name e es, Text.words l = "add" :: name :: e :: es ∧ exists_ sets name = true ∧
        (update sets name fun s =>
          { s with entries := s.entries ++ [" ".intercalate (e :: es)] }) = t) ∨
      (∃ a b x y, Text.words l = ["swap", a, b] ∧ sets.find? (·.name == a) = some x ∧
        sets.find? (·.name == b) = some y ∧
        (sets.map fun s =>
          if s.name == a then { y with name := a }
          else if s.name == b then { x with name := b } else s) = t) ∨
      (Text.words l = ["flush"] ∧ (sets.map fun s => { s with entries := [] }) = t) ∨
      (∃ name, Text.words l = ["flush", name] ∧ exists_ sets name = true ∧
        (update sets name fun s => { s with entries := [] }) = t) ∨
      (Text.words l = ["destroy"] ∧ [] = t) ∨
      (∃ name, Text.words l = ["destroy", name] ∧ exists_ sets name = true ∧
        sets.filter (·.name != name) = t) := by
  unfold runLine
  -- one case per shape of the words; each leaves one disjunct standing
  split
  next hw => simp [hw]
  next name spec hw => by_cases he : exists_ sets name = true <;> simp [hw, he, and_assoc]
  next name e es hw => by_cases he : exists_ sets name = true <;> simp [hw, he, and_assoc]
  next a b hw =>
    split
    next x y hx hy => simp [hw, hx, hy, and_assoc]
    next hx => simp [hw, hx]
    next hy _ => simp [hw, hy]
  next hw => simp [hw]
  next name hw => by_cases he : exists_ sets name = true <;> simp [hw, he]
  next hw => simp [hw]
  next name hw => by_cases he : exists_ sets name = true <;> simp [hw, he]
  next h0 h1 h2 h3 h4 h5 h6 h7 =>
    -- words of no command: every disjunct names words the split has ruled out
    simp only [reduceCtorEq, false_iff]
    rintro (⟨hw, -⟩ | ⟨name, spec, hw, -⟩ | ⟨name, e, es, hw, -⟩ | ⟨a, b, x, y, hw, -⟩ |
      ⟨hw, -⟩ | ⟨name, hw, -⟩ | ⟨hw, -⟩ | ⟨name, hw, -⟩)
    · exact h0 hw
    · exact h1 name spec hw
    · exact h2 name e es hw
    · exact h3 a b hw
    · exact h4 hw
    · exact h5 name hw
    · exact h6 hw
    · exact h7 name hw

/-- Whether a line runs, and what it leaves, does not depend on its number. -/
theorem runLine_toOption (sets : List IpSet) (n : Nat) (l : String) :
    (runLine sets n l).toOption = (runLine sets 0 l).toOption := by
  -- the number enters only the faults, and `runLine_eq_ok_iff` does not mention it
  ext t
  rw [toOption_eq_some_iff, toOption_eq_some_iff, runLine_eq_ok_iff, runLine_eq_ok_iff]

theorem runLines_eq_ok_iff (number : Nat → Nat) (sets t : List IpSet) (lines : List String) :
    runLines number sets lines = .ok t ↔ runAll sets lines = some t := by
  have key : ∀ (k : Nat) (sets : List IpSet),
      (lines.zipIdx k).foldlM (fun acc (l, i) => runLine acc (number i) l) sets = .ok t ↔
        runAll sets lines = some t := by
    induction lines with
    | nil => simp [pure, Except.pure]
    | cons l ls ih =>
        intro k sets
        have hopt := runLine_toOption sets (number k) l
        simp only [List.zipIdx_cons, List.foldlM_cons, runAll_cons]
        cases h0 : runLine sets 0 l with
        | ok s =>
            rw [h0] at hopt
            cases hn : runLine sets (number k) l with
            | ok s' =>
                rw [hn] at hopt
                cases hopt
                exact ih (k + 1) s
            | error e => simp [hn, Except.toOption] at hopt
        | error e =>
            rw [h0] at hopt
            cases hn : runLine sets (number k) l with
            | ok s' => simp [hn, Except.toOption] at hopt
            | error e' => simp [bind, Except.bind, Except.toOption]
  unfold runLines
  rw [← key 0 sets]
  -- relabelling the fault changes no success
  cases (lines.zipIdx 0).foldlM (fun acc (l, i) => runLine acc (number i) l) sets with
  | ok a =>
    constructor
    · rintro ⟨⟩
      rfl
    · rintro ⟨⟩
      rfl
  | error e =>
    constructor
    · rintro ⟨⟩
    · rintro ⟨⟩

section Steps

variable {sets : List IpSet} {l : String} {ls : List String}

theorem runAll_blank (h : Text.words l = []) : runAll sets (l :: ls) = runAll sets ls := by
  have hline : (runLine sets 0 l).toOption = some sets :=
    toOption_eq_some_iff.mpr (runLine_eq_ok_iff.mpr (.inl ⟨h, rfl⟩))
  rw [runAll_cons, hline]
  rfl

theorem runAll_create {name : String} {spec : List String}
    (h : Text.words l = "create" :: name :: spec) :
    runAll sets (l :: ls) =
      if exists_ sets name then none
      else runAll (sets ++ [⟨name, " ".intercalate spec, []⟩]) ls := by
  have hline : (runLine sets 0 l).toOption = if exists_ sets name then none
      else some (sets ++ [⟨name, " ".intercalate spec, []⟩]) := by
    ext t
    rw [toOption_eq_some_iff, runLine_eq_ok_iff]
    by_cases he : exists_ sets name = true <;> simp [h, he, and_assoc]
  rw [runAll_cons, hline]
  split <;> rfl

theorem runAll_add {name e : String} {es : List String}
    (h : Text.words l = "add" :: name :: e :: es) :
    runAll sets (l :: ls) =
      if exists_ sets name then
        runAll (update sets name fun s => { s with entries := s.entries ++ [" ".intercalate (e :: es)] }) ls
      else none := by
  have hline : (runLine sets 0 l).toOption = if exists_ sets name then
      some (update sets name fun s =>
        { s with entries := s.entries ++ [" ".intercalate (e :: es)] })
      else none := by
    ext t
    rw [toOption_eq_some_iff, runLine_eq_ok_iff]
    by_cases he : exists_ sets name = true <;> simp [h, he, and_assoc]
  rw [runAll_cons, hline]
  split <;> rfl

theorem runAll_swap {a b : String} (h : Text.words l = ["swap", a, b]) :
    runAll sets (l :: ls) =
      match sets.find? (·.name == a), sets.find? (·.name == b) with
      | some x, some y =>
          runAll (sets.map fun s =>
            if s.name == a then { y with name := a } else if s.name == b then { x with name := b } else s) ls
      | _, _ => none := by
  have hline : ∀ t, (runLine sets 0 l).toOption = some t ↔
      ∃ x y, sets.find? (·.name == a) = some x ∧ sets.find? (·.name == b) = some y ∧
        (sets.map fun s =>
          if s.name == a then { y with name := a }
          else if s.name == b then { x with name := b } else s) = t := by
    intro t
    rw [toOption_eq_some_iff, runLine_eq_ok_iff]
    simp [h, and_assoc]
  rw [runAll_cons]
  cases ha : sets.find? (·.name == a) <;> cases hb : sets.find? (·.name == b)
  case some.some x y =>
    rw [(hline _).mpr ⟨x, y, ha, hb, rfl⟩]
    rfl
  -- a missing set: the line does not run
  all_goals
    have hnone : (runLine sets 0 l).toOption = none := by
      refine Option.eq_none_iff_forall_ne_some.mpr fun t ht => ?_
      obtain ⟨x, y, hx, hy, -⟩ := (hline t).mp ht
      simp_all
    rw [hnone]
    rfl

theorem runAll_flush {name : String} (h : Text.words l = ["flush", name]) :
    runAll sets (l :: ls) =
      if exists_ sets name then runAll (update sets name fun s => { s with entries := [] }) ls
      else none := by
  have hline : (runLine sets 0 l).toOption = if exists_ sets name then
      some (update sets name fun s => { s with entries := [] }) else none := by
    ext t
    rw [toOption_eq_some_iff, runLine_eq_ok_iff]
    by_cases he : exists_ sets name = true <;> simp [h, he]
  rw [runAll_cons, hline]
  split <;> rfl

theorem runAll_destroy {name : String} (h : Text.words l = ["destroy", name]) :
    runAll sets (l :: ls) =
      if exists_ sets name then runAll (sets.filter (·.name != name)) ls else none := by
  have hline : (runLine sets 0 l).toOption = if exists_ sets name then
      some (sets.filter (·.name != name)) else none := by
    ext t
    rw [toOption_eq_some_iff, runLine_eq_ok_iff]
    by_cases he : exists_ sets name = true <;> simp [h, he]
  rw [runAll_cons, hline]
  split <;> rfl

theorem runAll_cons_some {t : List IpSet} (h : runAll sets (l :: ls) = some t) :
    ∃ s, runLine sets 0 l = .ok s ∧ runAll s ls = some t := by
  rw [runAll_cons, Option.bind_eq_some_iff] at h
  obtain ⟨s, hs, h⟩ := h
  exact ⟨s, toOption_eq_some_iff.mp hs, h⟩

/-- A line whose first word is no command fails. -/
theorem runAll_unknown {w : String} {ws : List String} (h : Text.words l = w :: ws)
    (hw : w ∉ ["create", "add", "swap", "flush", "destroy"]) :
    runAll sets (l :: ls) = none := by
  simp only [List.mem_cons, List.not_mem_nil, or_false, not_or] at hw
  obtain ⟨h1, h2, h3, h4, h5⟩ := hw
  have hline : (runLine sets 0 l).toOption = none := by
    ext t
    rw [toOption_eq_some_iff, runLine_eq_ok_iff]
    simp [h, h1, h2, h3, h4, h5]
  rw [runAll_cons, hline]
  rfl

end Steps

section Valid

/-- The sets have distinct names, and each name is a word. -/
def Valid (sets : List IpSet) : Prop :=
  (sets.map (·.name)).Nodup ∧ ∀ s ∈ sets, Text.IsWord s.name

theorem exists_iff (sets : List IpSet) (name : String) :
    exists_ sets name = true ↔ name ∈ sets.map (·.name) := by
  simp only [exists_, List.any_eq_true, beq_iff_eq, List.mem_map]

theorem valid_nil : Valid [] := by
  simp [Valid]

theorem Valid.map {sets : List IpSet} (h : Valid sets) {f : IpSet → IpSet}
    (hf : ∀ s, (f s).name = s.name) : Valid (sets.map f) := by
  have hnames : (sets.map f).map (·.name) = sets.map (·.name) := by
    simp [Function.comp_def, hf]
  refine ⟨hnames ▸ h.1, ?_⟩
  intro s hs
  obtain ⟨s', hs', rfl⟩ := List.mem_map.mp hs
  rw [hf]
  exact h.2 s' hs'

theorem Valid.update {sets : List IpSet} (h : Valid sets) (name : String) {f : IpSet → IpSet}
    (hf : ∀ s, (f s).name = s.name) : Valid (update sets name f) := by
  apply h.map
  intro s
  by_cases hs : s.name = name <;> simp [hs, hf]

theorem Valid.filter {sets : List IpSet} (h : Valid sets) (p : IpSet → Bool) :
    Valid (sets.filter p) := by
  refine ⟨?_, fun s hs => h.2 s (List.mem_filter.mp hs).1⟩
  exact (List.Sublist.map (fun x : IpSet => x.name) List.filter_sublist).nodup h.1

theorem Valid.append_fresh {sets : List IpSet} (h : Valid sets) {s : IpSet}
    (hfresh : s.name ∉ sets.map (·.name)) (hw : Text.IsWord s.name) : Valid (sets ++ [s]) := by
  refine ⟨?_, ?_⟩
  · rw [List.map_append, List.nodup_append]
    refine ⟨h.1, by simp, ?_⟩
    intro a ha b hb
    rw [List.map_singleton, List.mem_singleton] at hb
    rintro rfl
    exact hfresh (hb ▸ ha)
  · intro x hx
    rcases List.mem_append.mp hx with hx | hx
    · exact h.2 x hx
    · rw [List.mem_singleton.mp hx]
      exact hw

/-- A line that runs keeps the sets valid. -/
theorem runLine_valid {sets t : List IpSet} (hv : Valid sets) {n : Nat} {l : String}
    (h : runLine sets n l = .ok t) : Valid t := by
  have word : ∀ x ∈ Text.words l, Text.IsWord x := fun x hx => Text.isWord_of_mem_words hx
  rcases runLine_eq_ok_iff.mp h with ⟨-, rfl⟩ | ⟨name, spec, hw, he, rfl⟩ | ⟨name, e, es, -, -, rfl⟩ |
    ⟨a, b, x, y, -, -, -, rfl⟩ | ⟨-, rfl⟩ | ⟨name, -, -, rfl⟩ | ⟨-, rfl⟩ | ⟨name, -, -, rfl⟩
  case inl => exact hv
  case inr.inl =>
    refine hv.append_fresh ?_ (word name (by simp [hw]))
    simpa [exists_iff] using Bool.eq_false_iff.mp he
  case inr.inr.inl => exact hv.update name (fun _ => rfl)
  case inr.inr.inr.inl =>
    apply hv.map
    intro s
    by_cases ha : s.name = a
    · simp [ha]
    · by_cases hb : s.name = b
      · have hba : b ≠ a := fun e => ha (hb.trans e)
        simp [hb, hba]
      · simp [ha, hb]
  case inr.inr.inr.inr.inl => exact hv.map (fun _ => rfl)
  case inr.inr.inr.inr.inr.inl => exact hv.update name (fun _ => rfl)
  case inr.inr.inr.inr.inr.inr.inl => exact valid_nil
  case inr.inr.inr.inr.inr.inr.inr => exact hv.filter _

/-- A script that runs keeps the sets valid. -/
theorem runAll_valid : ∀ {sets t : List IpSet} {ls : List String}, Valid sets →
    runAll sets ls = some t → Valid t
  | _, _, [], hv, h => by
      cases h
      exact hv
  | sets, t, l :: ls, hv, h => by
      obtain ⟨s, hs, h⟩ := runAll_cons_some h
      exact runAll_valid (runLine_valid hv hs) h

end Valid

section Lookup

/-- The set of a name. -/
def lookup (sets : List IpSet) (name : String) : Option IpSet := sets.find? (·.name == name)

theorem lookup_append (sets more : List IpSet) (name : String) :
    lookup (sets ++ more) name = (lookup sets name).or (lookup more name) := by
  simp only [lookup, List.find?_append]

theorem lookup_eq_none_iff {sets : List IpSet} {name : String} :
    lookup sets name = none ↔ name ∉ sets.map (·.name) := by
  simp [lookup, List.find?_eq_none]

theorem lookup_name {sets : List IpSet} {name : String} {s : IpSet}
    (h : lookup sets name = some s) : s.name = name := by
  simpa using List.find?_some h

theorem mem_of_lookup {sets : List IpSet} {name : String} {s : IpSet}
    (h : lookup sets name = some s) : s ∈ sets :=
  List.mem_of_find?_eq_some h

/-- With distinct names, a set is what its name looks up. -/
theorem lookup_of_mem : ∀ {sets : List IpSet}, (sets.map (·.name)).Nodup →
    ∀ {s : IpSet}, s ∈ sets → lookup sets s.name = some s
  | [], _, _, hs => absurd hs List.not_mem_nil
  | x :: xs, hnd, s, hs => by
      rw [List.map_cons, List.nodup_cons] at hnd
      rcases List.mem_cons.mp hs with rfl | hs
      · simp [lookup]
      · have hne : (x.name == s.name) = false := by
          simpa using fun (e : x.name = s.name) => hnd.1 (e ▸ List.mem_map_of_mem hs)
        have ih := lookup_of_mem hnd.2 hs
        simp only [lookup, List.find?_cons, hne] at ih ⊢
        exact ih

theorem lookup_eq_some_iff {sets : List IpSet} (hnd : (sets.map (·.name)).Nodup) {name : String}
    {s : IpSet} : lookup sets name = some s ↔ s ∈ sets ∧ s.name = name := by
  constructor
  · intro h
    exact ⟨mem_of_lookup h, lookup_name h⟩
  · rintro ⟨hs, rfl⟩
    exact lookup_of_mem hnd hs

/-- A map that keeps names moves each lookup through it. -/
theorem lookup_map {f : IpSet → IpSet} (hf : ∀ s, (f s).name = s.name) (sets : List IpSet)
    (name : String) : lookup (sets.map f) name = (lookup sets name).map f := by
  simp only [lookup, List.find?_map]
  rw [show (fun s : IpSet => s.name == name) ∘ f = fun s => s.name == name from
    funext fun s => by rw [Function.comp_apply, hf]]

/-- Removing the sets of one name. -/
theorem lookup_filter_name (sets : List IpSet) (gone name : String) :
    lookup (sets.filter (·.name != gone)) name = if name = gone then none else lookup sets name := by
  induction sets with
  | nil => simp [lookup]
  | cons x xs ih =>
      by_cases hx : x.name = gone
      · have hfx : (x.name != gone) = false := by simp [hx]
        rw [List.filter_cons, hfx, if_neg Bool.false_ne_true, ih]
        by_cases hn : name = gone
        · simp [hn]
        · have hxn : (x.name == name) = false := by simpa [hx] using Ne.symm hn
          simp [lookup, hxn, hn]
      · have hfx : (x.name != gone) = true := by simp [hx]
        by_cases hn : x.name = name
        · subst hn
          simp [lookup, hfx, hx]
        · simp [lookup, hfx, hn] at ih ⊢
          exact ih

/-- Two lists of sets with distinct names that look up alike hold the same
sets. -/
theorem perm_of_lookup_eq {sets sets' : List IpSet} (hnd : (sets.map (·.name)).Nodup)
    (hnd' : (sets'.map (·.name)).Nodup) (h : ∀ name, lookup sets name = lookup sets' name) :
    sets.Perm sets' := by
  have nodup : ∀ {l : List IpSet}, (l.map (·.name)).Nodup → l.Nodup :=
    fun h => List.Pairwise.of_map _ (fun _ _ hab e => hab (congrArg IpSet.name e)) h
  rw [List.perm_ext_iff_of_nodup (nodup hnd) (nodup hnd')]
  intro s
  constructor
  · intro hs
    exact mem_of_lookup ((h s.name) ▸ lookup_of_mem hnd hs)
  · intro hs
    exact mem_of_lookup ((h s.name).symm ▸ lookup_of_mem hnd' hs)

end Lookup

section Blocks

/-- A set as a script introduces it: a `create` line with the set's name and
specification, followed by one `add` line per entry. -/
structure Block where
  name : String
  spec : String
  entries : List String
deriving Repr, DecidableEq

namespace Block

/-- The lines of a block. -/
def lines (b : Block) : List String :=
  ("create " ++ b.name ++ " " ++ b.spec) :: b.entries.map fun e => "add " ++ b.name ++ " " ++ e

/-- The set a block makes: the kernel keeps specifications and entries with
their words joined by single spaces. -/
def set (b : Block) : IpSet := ⟨b.name, Text.normal b.spec, b.entries.map Text.normal⟩

/-- A block whose lines read as intended: the name is a word, nothing holds a
line boundary, and every entry has a word. -/
structure Wf (b : Block) : Prop where
  name_word : Text.IsWord b.name
  spec_line : Text.OneLine b.spec
  entry_line : ∀ e ∈ b.entries, Text.OneLine e
  entry_word : ∀ e ∈ b.entries, Text.words e ≠ []

/-- The block's name lies inside none of the command words of its lines. -/
def NameClear (b : Block) : Prop :=
  ¬ b.name.toList <:+: "create".toList ∧ (b.entries ≠ [] → ¬ b.name.toList <:+: "add".toList)

@[simp] theorem set_name (b : Block) : b.set.name = b.name := rfl

/-- The block under another name. -/
def rename (b : Block) (name : String) : Block := { b with name := name }

@[simp] theorem rename_name (b : Block) (name : String) : (b.rename name).name = name := rfl

@[simp] theorem rename_set (b : Block) (name : String) :
    (b.rename name).set = { b.set with name := name } := rfl

theorem Wf.rename {b : Block} (hb : b.Wf) {name : String} (hn : Text.IsWord name) :
    (b.rename name).Wf :=
  ⟨hn, hb.spec_line, hb.entry_line, hb.entry_word⟩

end Block

/-- The script of a list of blocks. -/
def script (bs : List Block) : List String := bs.flatMap Block.lines

/-- The blocks introduce distinct sets, none of which is already there. -/
def Fresh (sets : List IpSet) (bs : List Block) : Prop :=
  (bs.map (·.name)).Nodup ∧ ∀ b ∈ bs, b.name ∉ sets.map (·.name)

theorem isWord_create : Text.IsWord "create" := by decide

theorem isWord_add : Text.IsWord "add" := by decide

theorem words_command {cmd name rest : String} (hc : Text.IsWord cmd) (hn : Text.IsWord name) :
    Text.words (cmd ++ " " ++ name ++ " " ++ rest) = cmd :: name :: Text.words rest := by
  have hassoc : cmd ++ " " ++ name ++ " " ++ rest = cmd ++ " " ++ (name ++ " " ++ rest) := by
    simp only [String.append_assoc]
  rw [hassoc, Text.words_word_space hc, Text.words_word_space hn]

/-- Appending entries to the last set, whose name no other set has. -/
theorem update_append_last {sets : List IpSet} {x : IpSet} (hx : x.name ∉ sets.map (·.name))
    (f : IpSet → IpSet) : update (sets ++ [x]) x.name f = sets ++ [f x] := by
  have hkeep : ∀ s ∈ sets, (if s.name == x.name then f s else s) = s := by
    intro s hs
    have : s.name ≠ x.name := fun e => hx (List.mem_map.mpr ⟨s, hs, e⟩)
    simp [this]
  simp only [update, List.map_append, List.map_cons, List.map_nil, beq_self_eq_true, if_true]
  rw [List.map_congr_left hkeep, List.map_id']

/-- The `add` lines of a block fill the set its `create` line made last. -/
theorem runAll_adds {sets : List IpSet} {name : String} (spec : String)
    (hfresh : name ∉ sets.map (·.name))
    (hname : Text.IsWord name) (rest : List String) :
    ∀ (done es : List String), (∀ e ∈ es, Text.words e ≠ []) →
      runAll (sets ++ [⟨name, spec, done⟩]) (es.map (fun e => "add " ++ name ++ " " ++ e) ++ rest) =
        runAll (sets ++ [⟨name, spec, done ++ es.map Text.normal⟩]) rest
  | done, [], _ => by simp
  | done, e :: es, he => by
      obtain ⟨w, ws, hw⟩ := List.exists_cons_of_ne_nil (he e List.mem_cons_self)
      have hwords : Text.words ("add " ++ name ++ " " ++ e) = "add" :: name :: w :: ws := by
        rw [show "add " ++ name ++ " " ++ e = "add" ++ " " ++ name ++ " " ++ e from rfl,
          words_command isWord_add hname, hw]
      have hex : exists_ (sets ++ [⟨name, spec, done⟩]) name = true := by
        simp [exists_iff]
      have hupd := update_append_last (x := ⟨name, spec, done⟩) hfresh
        (fun s => { s with entries := s.entries ++ [" ".intercalate (w :: ws)] })
      have ih := runAll_adds spec hfresh hname rest (done ++ [Text.normal e]) es
        (fun x hx => he x (List.mem_cons_of_mem _ hx))
      rw [List.map_cons, List.cons_append, runAll_add hwords, if_pos hex, hupd]
      simpa [Text.normal, hw] using ih

/-- One block runs exactly when its set is new, and adds that set. -/
theorem runAll_block {sets : List IpSet} {b : Block} (hb : b.Wf) (rest : List String) :
    runAll sets (b.lines ++ rest) =
      if exists_ sets b.name then none else runAll (sets ++ [b.set]) rest := by
  have hcreate : Text.words ("create " ++ b.name ++ " " ++ b.spec) =
      "create" :: b.name :: Text.words b.spec := by
    rw [show "create " ++ b.name ++ " " ++ b.spec = "create" ++ " " ++ b.name ++ " " ++ b.spec
      from rfl, words_command isWord_create hb.name_word]
  simp only [Block.lines, List.cons_append, runAll_create hcreate]
  by_cases he : exists_ sets b.name = true
  · simp [he]
  · have hfresh : b.name ∉ sets.map (·.name) := by simpa [exists_iff] using he
    simp only [he, Bool.false_eq_true, if_false]
    rw [runAll_adds (" ".intercalate (Text.words b.spec)) hfresh hb.name_word rest [] b.entries
      hb.entry_word]
    rfl

/-- A block script runs exactly when its sets are new and distinct, and adds
them in order. -/
theorem runAll_script_iff {bs : List Block} (hwf : ∀ b ∈ bs, b.Wf) :
    ∀ (sets t : List IpSet) (rest : List String),
      runAll sets (script bs ++ rest) = some t ↔
        Fresh sets bs ∧ runAll (sets ++ bs.map Block.set) rest = some t := by
  induction bs with
  | nil => intro sets t rest; simp [script, Fresh]
  | cons b bs ih =>
      intro sets t rest
      have hb := hwf b List.mem_cons_self
      have ih' := ih (fun x hx => hwf x (List.mem_cons_of_mem _ hx))
      rw [script, List.flatMap_cons, List.append_assoc, runAll_block hb]
      by_cases he : exists_ sets b.name = true
      · simp only [he, if_true, reduceCtorEq, false_iff, not_and]
        intro hfresh
        exact absurd ((exists_iff sets b.name).mp he) (hfresh.2 b List.mem_cons_self)
      · simp only [he, Bool.false_eq_true, if_false]
        rw [← script, ih' (sets ++ [b.set]) t rest]
        have hnot : b.name ∉ sets.map (·.name) := by simpa [exists_iff] using he
        constructor
        · rintro ⟨⟨hnd, hout⟩, hrun⟩
          refine ⟨⟨?_, ?_⟩, by simpa using hrun⟩
          · refine List.nodup_cons.mpr ⟨?_, hnd⟩
            intro hm
            obtain ⟨c, hc, hcn⟩ := List.mem_map.mp hm
            exact hout c hc (by simp [hcn])
          · intro c hc
            rcases List.mem_cons.mp hc with rfl | hc
            · exact hnot
            · intro hm
              exact hout c hc (by simp [List.map_append, hm])
        · rintro ⟨⟨hnd, hout⟩, hrun⟩
          obtain ⟨hb0, hnd⟩ := List.nodup_cons.mp hnd
          refine ⟨⟨hnd, ?_⟩, by simpa using hrun⟩
          intro c hc hm
          rw [List.map_append, List.mem_append] at hm
          rcases hm with hm | hm
          · exact hout c (List.mem_cons_of_mem _ hc) hm
          · apply hb0
            simp only [List.map_cons, List.map_nil, List.mem_singleton, Block.set_name] at hm
            exact List.mem_map.mpr ⟨c, hc, hm⟩

end Blocks

theorem oneLine_lines {b : Block} (hb : b.Wf) : ∀ l ∈ b.lines, Text.OneLine l := by
  have hname := hb.name_word.oneLine
  have hcreate : Text.OneLine "create " := by decide
  have hadd : Text.OneLine "add " := by decide
  have hspace : Text.OneLine " " := by decide
  intro l hl
  rcases List.mem_cons.mp hl with rfl | hl
  · exact ((hcreate.append hname).append hspace).append hb.spec_line
  · obtain ⟨e, he, rfl⟩ := List.mem_map.mp hl
    exact ((hadd.append hname).append hspace).append (hb.entry_line e he)

theorem oneLine_script {bs : List Block} (hwf : ∀ b ∈ bs, b.Wf) :
    ∀ l ∈ script bs, Text.OneLine l := by
  intro l hl
  obtain ⟨b, hb, hl⟩ := List.mem_flatMap.mp hl
  exact oneLine_lines (hwf b hb) l hl

end IpSet

namespace Kernel

/-- The sets of a kernel are valid. -/
def Valid (k : Kernel) : Prop := IpSet.Valid k.sets

/-- Lines without boundaries are received as sent, unless there are none:
an empty script is received as one blank line. -/
theorem lines_scriptText {ls : List String} (hne : ls ≠ []) (h : ∀ l ∈ ls, Text.OneLine l) :
    Text.lines (scriptText ls) = ls :=
  Text.lines_intercalate_feed ls hne h

theorem lines_scriptText_nil : Text.lines (scriptText []) = [""] := by
  decide

/-- A script of lines without boundaries runs from its text as it runs from
its lines. -/
theorem runAll_lines_scriptText (sets : List IpSet) {ls : List String}
    (h : ∀ l ∈ ls, Text.OneLine l) :
    IpSet.runAll sets (Text.lines (scriptText ls)) = IpSet.runAll sets ls := by
  cases ls with
  | nil =>
      rw [lines_scriptText_nil, IpSet.runAll_blank (by decide)]
  | cons l ls => rw [lines_scriptText (List.cons_ne_nil l ls) h]

theorem load_ipsets_eq_ok_iff {k k' : Kernel} {ls : List String} :
    k.load .ipsets ls = .ok k' ↔
      k.pending "ipsets" ≤ 0 ∧
        ∃ t, IpSet.runAll k.sets (Text.lines (scriptText ls)) = some t ∧ k' = { k with sets := t } := by
  unfold load
  by_cases hp : k.pending "ipsets" > 0
  · have hp' : ¬k.pending "ipsets" ≤ 0 := by omega
    simp [Ruleset.Kind.key, hp, hp']
  · have hp' : k.pending "ipsets" ≤ 0 := by omega
    simp only [Ruleset.Kind.key, hp, if_false, hp', true_and]
    cases hr : IpSet.runLines (· + 1) k.sets (Text.lines (scriptText ls)) with
    | error e =>
        have : ∀ t, IpSet.runAll k.sets (Text.lines (scriptText ls)) ≠ some t := by
          intro t ht
          rw [← IpSet.runLines_eq_ok_iff (· + 1)] at ht
          rw [hr] at ht
          cases ht
        simp [bind, Except.bind]
        intro t ht
        exact absurd ht (this t)
    | ok t =>
        have ht := (IpSet.runLines_eq_ok_iff (· + 1) k.sets t _).mp hr
        simp only [bind, Except.bind, pure, Except.pure, Except.ok.injEq]
        constructor
        · rintro rfl
          exact ⟨t, ht, rfl⟩
        · rintro ⟨t', ht', rfl⟩
          rw [ht] at ht'
          cases ht'
          rfl

theorem load_iptables_eq_ok_iff {k k' : Kernel} {ls : List String} :
    k.load .iptables ls = .ok k' ↔
      k.pending "iptables" ≤ 0 ∧ k' = { k with iptables := Text.lines (scriptText ls) } := by
  unfold load
  by_cases hp : k.pending "iptables" > 0
  · have hp' : ¬k.pending "iptables" ≤ 0 := by omega
    simp [Ruleset.Kind.key, hp, hp']
  · have hp' : k.pending "iptables" ≤ 0 := by omega
    simp [Ruleset.Kind.key, hp, hp', eq_comm]

theorem load_ip6tables_eq_ok_iff {k k' : Kernel} {ls : List String} :
    k.load .ip6tables ls = .ok k' ↔
      k.pending "ip6tables" ≤ 0 ∧ k' = { k with ip6tables := Text.lines (scriptText ls) } := by
  unfold load
  by_cases hp : k.pending "ip6tables" > 0
  · have hp' : ¬k.pending "ip6tables" ≤ 0 := by omega
    simp [Ruleset.Kind.key, hp, hp']
  · have hp' : k.pending "ip6tables" ≤ 0 := by omega
    simp [Ruleset.Kind.key, hp, hp', eq_comm]

/-- Loading a script keeps the kernel's sets valid. -/
theorem load_valid {k k' : Kernel} (hv : k.Valid) {kind : Ruleset.Kind} {ls : List String}
    (h : k.load kind ls = .ok k') : k'.Valid := by
  cases kind with
  | iptables =>
      obtain ⟨-, rfl⟩ := load_iptables_eq_ok_iff.mp h
      exact hv
  | ip6tables =>
      obtain ⟨-, rfl⟩ := load_ip6tables_eq_ok_iff.mp h
      exact hv
  | ipsets =>
      obtain ⟨-, t, ht, rfl⟩ := load_ipsets_eq_ok_iff.mp h
      exact IpSet.runAll_valid hv ht

theorem afterRefusal_sets (k : Kernel) (kind : Ruleset.Kind) : (k.afterRefusal kind).sets = k.sets := by
  unfold afterRefusal useRefusal
  split <;> rfl

end Kernel
end Firewall
