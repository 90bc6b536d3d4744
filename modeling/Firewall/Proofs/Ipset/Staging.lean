import Mathlib.Data.List.Forall2
import Firewall.Ipset.Swap
import Firewall.Proofs.Ipset.Kernel

/-!
# What the atomic ipset update does

`Ipset.swapScript` moves the lines of a new ipset script onto temporary sets
and swaps them with the live ones.  This module runs that script on a kernel.

**Renaming a line.**  A line's set is renamed by replacing the first
occurrence of its name, wherever it stands.  When the name is not part of the
command word, the set word itself is renamed (`replaceFirstIn_command`).
When it is, the command word is broken and the kernel refuses the line
(`replaceFirstIn_command_inside`).

**Staging.**  Folding the script of a list of blocks gives, block by block,
either the block's own lines (a set that is not live) or its lines renamed to
a temporary name drawn for the block (`Staged`).

**Results.**
* `staged_runAll_iff`: the staged lines run exactly when no live set's name
  lies inside a command word and the created sets are all new.
* `runAll_swapScript_perm`: whenever the script of block-shaped sets runs,
  the kernel is left with exactly the sets the blocks describe.
-/

namespace Firewall
namespace Ipset

open IpSet

section Replace

variable {old new : List Char}

theorem replaceFirstIn_at_start (hold : old ≠ []) (s : List Char) :
    replaceFirstIn old new (old ++ s) = new ++ s := by
  obtain ⟨c, cs, hc⟩ := List.exists_cons_of_ne_nil hold
  have hpre : old.isPrefixOf (old ++ s) = true := by simp
  rw [hc] at hpre ⊢
  simp only [List.cons_append, replaceFirstIn] at hpre ⊢
  rw [if_pos hpre]
  simp

/-- A prefix that holds no `x` of a list with `x` after `a` is a prefix of `a`. -/
theorem prefix_of_prefix_append_cons {x : Char} :
    ∀ {l a rest : List Char}, l <+: a ++ x :: rest → x ∉ l → l <+: a
  | [], _, _, _, _ => List.nil_prefix
  | c :: l, [], rest, h, hx => by
      rw [List.nil_append, List.cons_prefix_cons] at h
      exact absurd (h.1 ▸ List.mem_cons_self) hx
  | c :: l, d :: a, rest, h, hx => by
      rw [List.cons_append, List.cons_prefix_cons] at h
      obtain ⟨rfl, h⟩ := h
      rw [List.cons_prefix_cons]
      exact ⟨rfl, prefix_of_prefix_append_cons h (fun hm => hx (List.mem_cons_of_mem _ hm))⟩

/-- Renaming only brings in the characters of the new name. -/
theorem mem_replaceFirstIn : ∀ {s : List Char} {c : Char},
    c ∈ replaceFirstIn old new s → c ∈ s ∨ c ∈ new
  | [], _, h => by simp [replaceFirstIn] at h
  | d :: s, c, h => by
      simp only [replaceFirstIn] at h
      split at h
      · rcases List.mem_append.mp h with h | h
        · exact .inr h
        · exact .inl (List.mem_of_mem_drop h)
      · rcases List.mem_cons.mp h with rfl | h
        · exact .inl List.mem_cons_self
        · exact (mem_replaceFirstIn h).imp (List.mem_cons_of_mem d) id

theorem oneLine_replaceFirst {l name tmp : String} (hl : Text.OneLine l) (ht : Text.OneLine tmp) :
    Text.OneLine (replaceFirst l name tmp) := by
  intro c hc
  simp only [replaceFirst, String.toList_ofList] at hc
  rcases mem_replaceFirstIn hc with h | h
  · exact hl c h
  · exact ht c h

variable (hold : old ≠ []) (hspace : ' ' ∉ old)
include hold hspace

/-- Renaming in a command line whose command word does not contain the name
renames the set word. -/
theorem replaceFirstIn_command (rest : List Char) :
    ∀ cmd : List Char, ¬ old <:+: cmd →
      replaceFirstIn old new (cmd ++ ' ' :: (old ++ rest)) = cmd ++ ' ' :: (new ++ rest)
  | [], _ => by
      obtain ⟨c, cs, hc⟩ := List.exists_cons_of_ne_nil hold
      have hc' : c ≠ ' ' := fun e => hspace (hc ▸ e ▸ List.mem_cons_self)
      have hno : old.isPrefixOf (' ' :: (old ++ rest)) = false := by
        rw [hc]
        simp [List.isPrefixOf, hc']
      simp only [List.nil_append, replaceFirstIn, hno, Bool.false_eq_true, if_false]
      rw [replaceFirstIn_at_start hold]
  | c :: cmd, hinf => by
      have hno : old.isPrefixOf (c :: cmd ++ ' ' :: (old ++ rest)) = false := by
        cases hp : old.isPrefixOf (c :: cmd ++ ' ' :: (old ++ rest)) with
        | false => rfl
        | true =>
            rw [ List.isPrefixOf_iff_prefix] at hp
            exact absurd (prefix_of_prefix_append_cons hp hspace).isInfix hinf
      have hinf' : ¬ old <:+: cmd := fun h => hinf (List.infix_cons h)
      rw [List.cons_append, replaceFirstIn, ← List.cons_append, hno]
      simp only [Bool.false_eq_true, if_false]
      rw [replaceFirstIn_command rest cmd hinf']
      rfl

/-- Renaming in a command line whose command word contains the name replaces
its first occurrence inside the command word. -/
theorem replaceFirstIn_command_inside (rest : List Char) :
    ∀ cmd : List Char, old <:+: cmd →
      ∃ p u, cmd = p ++ old ++ u ∧
        replaceFirstIn old new (cmd ++ ' ' :: rest) = p ++ new ++ u ++ ' ' :: rest
  | [], hinf => by
      obtain ⟨s, t, h⟩ := hinf
      exact absurd (List.append_eq_nil_iff.mp (List.append_eq_nil_iff.mp h).1).2 hold
  | c :: cmd, hinf => by
      by_cases hp : old <+: c :: cmd
      · obtain ⟨u, hu⟩ := hp
        refine ⟨[], u, by simp [hu], ?_⟩
        rw [← hu, List.append_assoc, replaceFirstIn_at_start hold]
        simp
      · have hno : old.isPrefixOf (c :: cmd ++ ' ' :: rest) = false := by
          cases hq : old.isPrefixOf (c :: cmd ++ ' ' :: rest) with
          | false => rfl
          | true =>
              rw [ List.isPrefixOf_iff_prefix] at hq
              exact absurd (prefix_of_prefix_append_cons hq hspace) hp
        have hinf' : old <:+: cmd := (List.infix_cons_iff.mp hinf).resolve_left hp
        obtain ⟨p, u, hcmd, hrep⟩ := replaceFirstIn_command_inside rest cmd hinf'
        refine ⟨c :: p, u, by simp [hcmd], ?_⟩
        rw [List.cons_append, replaceFirstIn, ← List.cons_append, hno]
        simp only [Bool.false_eq_true, if_false]
        rw [hrep]
        simp

end Replace

section Drawing

theorem Drawing.run_bind {α β : Type} (x : Drawing α) (f : α → Drawing β) (w : Words) :
    Drawing.run (x >>= f) w =
      match Drawing.run x w with
      | (.ok a, w') => Drawing.run (f a) w'
      | (.error e, w') => (.error e, w') := by
  simp only [Drawing.run, ExceptT.run, bind, ExceptT.bind, ExceptT.mk, StateT.run, StateT.bind,
    ExceptT.bindCont]
  rcases x w with ⟨_ | _, _⟩ <;> rfl

theorem Drawing.run_map {α β : Type} (f : α → β) (x : Drawing α) (w : Words) :
    Drawing.run (f <$> x) w =
      match Drawing.run x w with
      | (.ok a, w') => (.ok (f a), w')
      | (.error e, w') => (.error e, w') := by
  rw [map_eq_pure_bind, Drawing.run_bind]
  rcases Drawing.run x w with ⟨_ | _, _⟩ <;> rfl

theorem Drawing.run_foldlM_cons {α β : Type} (f : α → β → Drawing α) (a : α) (x : β)
    (xs : List β) (w : Words) :
    Drawing.run ((x :: xs).foldlM f a) w =
      match Drawing.run (f a x) w with
      | (.ok a', w') => Drawing.run (xs.foldlM f a') w'
      | (.error e, w') => (.error e, w') := by
  rw [List.foldlM_cons, Drawing.run_bind]

@[simp] theorem Drawing.run_pure {α : Type} (a : α) (w : Words) :
    Drawing.run (pure a : Drawing α) w = (.ok a, w) := rfl

@[simp] theorem Drawing.run_get (w : Words) : Drawing.run (get : Drawing Words) w = (.ok w, w) := rfl

@[simp] theorem Drawing.run_throw {α : Type} (f : Fault) (w : Words) :
    Drawing.run (throw f : Drawing α) w = (.error f, w) := rfl

theorem drawWord_run (w : Words) :
    Drawing.run drawWord w =
      match w.draw with
      | .ok (x, w') => (.ok x, w')
      | .error f => (.error f, w) := by
  unfold drawWord
  rw [Drawing.run_bind, Drawing.run_get]
  cases h : w.draw with
  | ok p =>
      simp only [h]
      rfl
  | error f =>
      simp only [h]
      rfl

/-- Three lowercase letters: a temporary word as the supply generates them. -/
def TempWord (x : String) : Prop := x.toList.length = 3 ∧ ∀ c ∈ x.toList, c.isLower = true

instance (x : String) : Decidable (TempWord x) := inferInstanceAs (Decidable (_ ∧ _))

/-- A supply whose given words are, as the generated ones, three lowercase
letters. -/
def Words.Plain (w : Words) : Prop := ∀ x ∈ w.given, TempWord x

theorem Words.generated_tempWord (n : Nat) : TempWord (Words.generated n) := by
  have letters : ∀ i : Fin 26, (Char.ofNat ('a'.toNat + i.val)).isLower = true := by decide
  have letter : ∀ k : Nat, (Char.ofNat ('a'.toNat + k % 26)).isLower = true :=
    fun k => letters ⟨k % 26, Nat.mod_lt k (by decide)⟩
  refine ⟨by simp [Words.generated], fun c hc => ?_⟩
  simp only [Words.generated, String.toList_ofList, List.mem_cons, List.not_mem_nil, or_false] at hc
  rcases hc with rfl | rfl | rfl <;> exact letter _

/-- A lowercase letter is no white space. -/
theorem isSpace_of_isLower {c : Char} (h : c.isLower = true) : Text.isSpace c = false := by
  have letters : ∀ i : Fin 26, Text.isSpace (Char.ofNat ('a'.toNat + i.val)) = false := by decide
  have hc : 'a'.toNat ≤ c.toNat ∧ c.toNat ≤ 'z'.toNat := by
    unfold Char.isLower at h
    simp only [Bool.and_eq_true, decide_eq_true_eq] at h
    exact h
  have hi : c.toNat - 'a'.toNat < 26 := by
    have : 'z'.toNat = 'a'.toNat + 25 := rfl
    omega
  have hof := letters ⟨c.toNat - 'a'.toNat, hi⟩
  rwa [show 'a'.toNat + (c.toNat - 'a'.toNat) = c.toNat by omega, Char.ofNat_toNat] at hof

theorem TempWord.noSpace {x : String} (h : TempWord x) : ∀ c ∈ x.toList, Text.isSpace c = false :=
  fun c hc => isSpace_of_isLower (h.2 c hc)

theorem TempWord.dot_not_mem {x : String} (h : TempWord x) : '.' ∉ x.toList :=
  fun hm => absurd (h.2 _ hm) (by decide)

/-- A word drawn from a plain supply is three lowercase letters, and what is
left of the supply stays plain. -/
theorem drawWord_plain {w w' : Words} {x : String} (hw : w.Plain)
    (h : Drawing.run drawWord w = (.ok x, w')) : TempWord x ∧ w'.Plain := by
  rw [drawWord_run] at h
  cases hg : w.given with
  | cons y rest =>
      have hd : w.draw = .ok (y, ⟨rest, w.next⟩) := by simp [Words.draw, hg]
      rw [hd] at h
      simp only [Prod.mk.injEq, Except.ok.injEq] at h
      obtain ⟨rfl, rfl⟩ := h
      refine ⟨hw _ (by simp [hg]), ?_⟩
      intro z hz
      exact hw z (by simp [hg, hz])
  | nil =>
      by_cases hn : w.next < 17576
      · have hd : w.draw = .ok (Words.generated w.next, ⟨[], w.next + 1⟩) := by
          simp [Words.draw, hg, hn]
        rw [hd] at h
        simp only [Prod.mk.injEq, Except.ok.injEq] at h
        obtain ⟨rfl, rfl⟩ := h
        exact ⟨Words.generated_tempWord _, fun z hz => by simp at hz⟩
      · have hd : w.draw = .error .wordsExhausted := by simp [Words.draw, hg, hn]
        rw [hd] at h
        simp at h

/-- A temporary name of a set: the set's name, a dot, and three lowercase
letters. -/
def TempName (set tmp : String) : Prop :=
  ∃ x, tmp = set ++ "." ++ x ∧ TempWord x

/-- A temporary name of a set starts with the set's name and a dot, and the
rest is the word. -/
theorem tempName_iff {set tmp : String} : TempName set tmp ↔
    tmp.toList.take (set.toList.length + 1) = set.toList ++ ['.'] ∧
      TempWord (String.ofList (tmp.toList.drop (set.toList.length + 1))) := by
  constructor
  · rintro ⟨x, rfl, hx⟩
    have h : (set ++ "." ++ x).toList = (set.toList ++ ['.']) ++ x.toList := by
      simp [String.toList_append]
    rw [h, List.take_left' (by simp), List.drop_left' (by simp), String.ofList_toList]
    exact ⟨rfl, hx⟩
  · rintro ⟨htake, hx⟩
    refine ⟨_, ?_, hx⟩
    apply String.toList_injective
    rw [← List.take_append_drop (set.toList.length + 1) tmp.toList, htake]
    simp [String.toList_append]

instance (set tmp : String) : Decidable (TempName set tmp) :=
  decidable_of_iff _ tempName_iff.symm

/-- A fresh name is a temporary name of the set that is not taken. -/
theorem freshName_spec {taken : List String} {set : String} :
    ∀ {fuel : Nat} {w w' : Words} {tmp : String}, w.Plain →
      Drawing.run (freshName taken set fuel) w = (.ok tmp, w') →
        tmp ∉ taken ∧ TempName set tmp ∧ w'.Plain
  | 0, _, _, _, _, h => by simp [freshName] at h
  | fuel + 1, w, w', tmp, hw, h => by
      simp only [freshName] at h
      rw [Drawing.run_bind] at h
      rcases hd : Drawing.run drawWord w with ⟨_ | x, w1⟩
      · rw [hd] at h
        simp at h
      · rw [hd] at h
        simp only at h
        obtain ⟨hx, hw1⟩ := drawWord_plain hw hd
        by_cases ht : taken.contains (set ++ "." ++ x) = true
        · simp only [ht, if_true] at h
          exact freshName_spec hw1 h
        · simp only [ht, Bool.false_eq_true, if_false, Drawing.run_pure, Prod.mk.injEq,
            Except.ok.injEq] at h
          obtain ⟨rfl, rfl⟩ := h
          exact ⟨by simpa using ht, ⟨x, rfl, hx⟩, hw1⟩

/-- Drawing fresh names leaves a plain supply plain, whatever the outcome. -/
theorem freshName_plain {taken : List String} {set : String} :
    ∀ {fuel : Nat} {w : Words}, w.Plain → (Drawing.run (freshName taken set fuel) w).2.Plain
  | 0, _, hw => hw
  | fuel + 1, w, hw => by
      simp only [freshName]
      rw [Drawing.run_bind]
      rcases hd : Drawing.run drawWord w with ⟨_ | x, w1⟩
      · have hsame : w1 = w := by
          rw [drawWord_run] at hd
          cases hdr : w.draw with
          | ok p => rw [hdr] at hd; cases hd
          | error f => rw [hdr] at hd; cases hd; rfl
        subst hsame
        exact hw
      · obtain ⟨-, hw1⟩ := drawWord_plain hw hd
        dsimp only
        by_cases ht : taken.contains (set ++ "." ++ x) = true
        · simp only [ht, if_true]
          exact freshName_plain hw1
        · simp only [ht, Bool.false_eq_true, if_false, Drawing.run_pure]
          exact hw1

theorem TempName.isWord {set tmp : String} (hs : Text.IsWord set) (h : TempName set tmp) :
    Text.IsWord tmp := by
  obtain ⟨x, rfl, hx⟩ := h
  refine ⟨?_, ?_⟩
  · intro he
    have := congrArg String.length he
    simp [String.length_append] at this
  · intro c hc
    simp only [String.toList_append, List.mem_append] at hc
    rcases hc with (hc | hc) | hc
    · exact hs.2 c hc
    · rw [show c = '.' by simpa using hc]
      decide
    · exact hx.noSpace c hc

end Drawing

section Lines

/-- A line whose first word is no command; the kernel refuses it. -/
def Broken (l : String) : Prop :=
  ∃ u ws, Text.words l = u :: ws ∧ u ∉ ["create", "add", "swap", "flush", "destroy"]

theorem runAll_broken {sets : List IpSet} {l : String} (h : Broken l) (ls : List String) :
    runAll sets (l :: ls) = none := by
  obtain ⟨u, ws, hw, hu⟩ := h
  exact runAll_unknown hw hu

/-- Lines that are each as intended or broken are as intended, once they run. -/
theorem eq_of_runAll_some {xs ys : List String}
    (h : List.Forall₂ (fun x y => x = y ∨ Broken x) xs ys) :
    ∀ {sets t : List IpSet} {rest : List String}, runAll sets (xs ++ rest) = some t → xs = ys := by
  induction h with
  | nil => intros; rfl
  | @cons x y xs ys hxy _ ih =>
      intro sets t rest hrun
      rcases hxy with rfl | hb
      · obtain ⟨s, -, hs⟩ := runAll_cons_some hrun
        rw [ih hs]
      · rw [List.cons_append, runAll_broken hb] at hrun
        cases hrun

theorem toList_command_line (cmd name rest : String) :
    (cmd ++ " " ++ name ++ " " ++ rest).toList =
      cmd.toList ++ ' ' :: (name.toList ++ ' ' :: rest.toList) := by
  simp [String.toList_append]

variable {cmd name tmp rest : String}

/-- Renaming a set in a line whose command word does not hold the name
renames the set word. -/
theorem replaceFirst_command_line (hn : Text.IsWord name) (hinf : ¬ name.toList <:+: cmd.toList) :
    replaceFirst (cmd ++ " " ++ name ++ " " ++ rest) name tmp = cmd ++ " " ++ tmp ++ " " ++ rest := by
  unfold replaceFirst
  rw [toList_command_line, replaceFirstIn_command hn.toList_ne_nil hn.space_not_mem _ _ hinf,
    ← toList_command_line, String.ofList_toList]

/-- Renaming a set to a temporary name in a line whose command word holds the
name breaks the command word. -/
theorem replaceFirst_command_line_broken (hc : Text.IsWord cmd) (hn : Text.IsWord name)
    (ht : TempName name tmp) (hinf : name.toList <:+: cmd.toList) :
    Broken (replaceFirst (cmd ++ " " ++ name ++ " " ++ rest) name tmp) := by
  obtain ⟨p, u, hcmd, hrep⟩ := @replaceFirstIn_command_inside name.toList tmp.toList
    hn.toList_ne_nil hn.space_not_mem (name.toList ++ ' ' :: rest.toList) cmd.toList hinf
  have htw : Text.IsWord tmp := ht.isWord hn
  have hdot : '.' ∈ tmp.toList := by
    obtain ⟨x, hx, -⟩ := ht
    rw [hx]
    simp [String.toList_append]
  -- the broken command word: the name inside it replaced by the temporary name
  have hword : Text.IsWord (String.ofList (p ++ tmp.toList ++ u)) := by
    refine ⟨?_, ?_⟩
    · intro he
      have := congrArg String.toList he
      simp [htw.toList_ne_nil] at this
    · intro c hm
      simp only [String.toList_ofList, List.mem_append] at hm
      rcases hm with (hm | hm) | hm
      · exact hc.2 c (by rw [hcmd]; simp [hm])
      · exact htw.2 c hm
      · exact hc.2 c (by rw [hcmd]; simp [hm])
  refine ⟨String.ofList (p ++ tmp.toList ++ u),
    Text.words (String.ofList (name.toList ++ ' ' :: rest.toList)), ?_, ?_⟩
  · unfold replaceFirst
    rw [toList_command_line, hrep]
    have hsplit : String.ofList (p ++ tmp.toList ++ u ++ ' ' :: (name.toList ++ ' ' :: rest.toList)) =
        String.ofList (p ++ tmp.toList ++ u) ++ " " ++
          String.ofList (name.toList ++ ' ' :: rest.toList) := by
      apply String.toList_injective
      simp [String.toList_append]
    rw [hsplit, Text.words_word_space hword]
  · have hdw : '.' ∈ (String.ofList (p ++ tmp.toList ++ u)).toList := by simp [hdot]
    have hcmds : ∀ c ∈ ["create", "add", "swap", "flush", "destroy"], '.' ∉ c.toList := by decide
    exact fun hm => hcmds _ hm hdw

/-- The lines of a live block with its set renamed to a temporary name are the
renamed block's lines, except those whose command word gets broken. -/
theorem renamed_lines_forall₂ {b : Block} (hb : b.Wf) {tmp : String} (ht : TempName b.name tmp) :
    List.Forall₂ (fun x y => x = y ∨ Broken x) (b.lines.map (replaceFirst · b.name tmp))
      (b.rename tmp).lines := by
  have hline : ∀ {cmd rest : String}, Text.IsWord cmd →
      replaceFirst (cmd ++ " " ++ b.name ++ " " ++ rest) b.name tmp = cmd ++ " " ++ tmp ++ " " ++ rest ∨
        Broken (replaceFirst (cmd ++ " " ++ b.name ++ " " ++ rest) b.name tmp) := by
    intro cmd rest hc
    by_cases hinf : b.name.toList <:+: cmd.toList
    · exact .inr (replaceFirst_command_line_broken hc hb.name_word ht hinf)
    · exact .inl (replaceFirst_command_line hb.name_word hinf)
  have hcreate : "create " = "create" ++ " " := rfl
  have hadd : "add " = "add" ++ " " := rfl
  simp only [Block.lines, Block.rename, List.map_cons, List.map_map, List.forall₂_cons, hcreate,
    hadd]
  refine ⟨hline isWord_create, ?_⟩
  rw [List.forall₂_map_left_iff, List.forall₂_map_right_iff, List.forall₂_same]
  intro e _
  exact hline isWord_add

end Lines

section Staging

variable {live : List String}

theorem setOf_command_line {cmd name rest : String} (hc : Text.IsWord cmd) (hn : Text.IsWord name) :
    setOf (cmd ++ " " ++ name ++ " " ++ rest) = .ok name := by
  simp only [setOf, words_command hc hn]

/-- Every line of a block is about the block's set. -/
theorem setOf_block_line {b : Block} (hb : b.Wf) : ∀ l ∈ b.lines, setOf l = .ok b.name := by
  intro l hl
  rcases List.mem_cons.mp hl with rfl | hl
  · rw [show "create " ++ b.name ++ " " ++ b.spec = "create" ++ " " ++ b.name ++ " " ++ b.spec
      from rfl]
    exact setOf_command_line isWord_create hb.name_word
  · obtain ⟨e, -, rfl⟩ := List.mem_map.mp hl
    rw [show "add " ++ b.name ++ " " ++ e = "add" ++ " " ++ b.name ++ " " ++ e from rfl]
    exact setOf_command_line isWord_add hb.name_word

theorem setTemporary_of_not_mem {kvs : List (String × String)} {k : String}
    (hk : k ∉ kvs.map (·.1)) (v : String) : setTemporary kvs k v = kvs ++ [(k, v)] := by
  have hany : kvs.any (·.1 == k) = false := by
    rw [List.any_eq_false]
    intro x hx he
    exact hk (List.mem_map.mpr ⟨x, hx, by simpa using he⟩)
  simp [setTemporary, hany]

theorem temporary_append_new {kvs : List (String × String)} {k : String}
    (hk : k ∉ kvs.map (·.1)) (v : String) :
    (((kvs ++ [(k, v)]).find? (·.1 == k)).map (·.2)).getD k = v := by
  have hnone : kvs.find? (·.1 == k) = none := by
    rw [List.find?_eq_none]
    intro x hx he
    exact hk (List.mem_map.mpr ⟨x, hx, by simpa using he⟩)
  simp [List.find?_append, hnone]

/-- A line of a set that is not live is kept. -/
theorem Staging.step_run_dead {r : Staging} {line set : String} (w : Words)
    (hs : setOf line = .ok set) (hl : set ∉ live) :
    Drawing.run (Staging.step live r line) w = (.ok ⟨r.lines ++ [line], r.temporary, some set⟩, w) := by
  simp [Staging.step, hs, hl, Drawing.run]
  rfl

/-- A line of the live set of the line before keeps that set's temporary name. -/
theorem Staging.step_run_same {r : Staging} {line set : String} (w : Words)
    (hs : setOf line = .ok set) (hl : set ∈ live) (hp : r.previous = some set) :
    Drawing.run (Staging.step live r line) w =
      (.ok ⟨r.lines ++ [replaceFirst line set (((r.temporary.find? (·.1 == set)).map (·.2)).getD set)],
        r.temporary, some set⟩, w) := by
  simp [Staging.step, hs, hl, hp, Drawing.run]
  rfl

/-- A line of a live set that differs from the line before draws a fresh
temporary name for it. -/
theorem Staging.step_run_new {r : Staging} {line set : String} (w : Words)
    (hs : setOf line = .ok set) (hl : set ∈ live) (hp : r.previous ≠ some set) :
    Drawing.run (Staging.step live r line) w =
      match Drawing.run (freshName live set (w.remaining + 1)) w with
      | (.ok tmp, w') =>
        (.ok ⟨r.lines ++ [replaceFirst line set
          ((((setTemporary r.temporary set tmp).find? (·.1 == set)).map (·.2)).getD set)],
          setTemporary r.temporary set tmp, some set⟩, w')
      | (.error e, w') => (.error e, w') := by
  simp only [Staging.step, hs]
  simp only [Drawing.run_bind, Drawing.run_pure]
  simp [hl, hp, Drawing.run_bind, Drawing.run_get]
  rw [Drawing.run_map]
  rcases Drawing.run (freshName live set (w.remaining + 1)) w with ⟨_ | _, _⟩ <;> rfl

/-- A line without a set fails. -/
theorem Staging.step_run_error {r : Staging} {line : String} {f : Fault} (w : Words)
    (hs : setOf line = .error f) : Drawing.run (Staging.step live r line) w = (.error f, w) := by
  simp [Staging.step, hs, Drawing.run]
  rfl

/-- Staging a line leaves a plain supply plain, whatever the outcome. -/
theorem Staging.step_plain {r : Staging} {line : String} {w : Words} (hw : w.Plain) :
    (Drawing.run (Staging.step live r line) w).2.Plain := by
  cases hs : setOf line with
  | error f =>
      rw [Staging.step_run_error w hs]
      exact hw
  | ok set =>
      by_cases hl : set ∈ live
      · by_cases hp : r.previous = some set
        · rw [Staging.step_run_same w hs hl hp]
          exact hw
        · rw [Staging.step_run_new w hs hl hp]
          have hf := @freshName_plain live set (w.remaining + 1) w hw
          rcases hd : Drawing.run (freshName live set (w.remaining + 1)) w with ⟨_ | _, w'⟩ <;>
            (rw [hd] at hf; exact hf)
      · rw [Staging.step_run_dead w hs hl]
        exact hw

theorem foldlM_step_plain :
    ∀ (lines : List String) (r : Staging) {w : Words}, w.Plain →
      (Drawing.run (lines.foldlM (Staging.step live) r) w).2.Plain
  | [], _, _, hw => hw
  | l :: ls, r, w, hw => by
      rw [Drawing.run_foldlM_cons]
      have hstep := @Staging.step_plain live r l w hw
      rcases hd : Drawing.run (Staging.step live r l) w with ⟨_ | r', w'⟩ <;> rw [hd] at hstep
      · exact hstep
      · exact foldlM_step_plain ls r' hstep

/-- Lines of a set that is not live pass unchanged. -/
theorem run_foldlM_dead {set : String} (hl : set ∉ live) :
    ∀ (ls : List String) (l : String) (r : Staging) (w : Words), (∀ x ∈ l :: ls, setOf x = .ok set) →
      Drawing.run ((l :: ls).foldlM (Staging.step live) r) w =
        (.ok ⟨r.lines ++ l :: ls, r.temporary, some set⟩, w)
  | [], l, r, w, hs => by
      rw [Drawing.run_foldlM_cons, Staging.step_run_dead w (hs l List.mem_cons_self) hl]
      rfl
  | l' :: ls, l, r, w, hs => by
      rw [Drawing.run_foldlM_cons, Staging.step_run_dead w (hs l List.mem_cons_self) hl]
      dsimp only
      rw [run_foldlM_dead hl ls l' _ w (fun x hx => hs x (List.mem_cons_of_mem _ hx))]
      simp

/-- Further lines of the live set of the line before are renamed to its
temporary name. -/
theorem run_foldlM_same {set tmp : String} (hl : set ∈ live) :
    ∀ (ls : List String) (r : Staging) (w : Words), (∀ x ∈ ls, setOf x = .ok set) →
      r.previous = some set → ((r.temporary.find? (·.1 == set)).map (·.2)).getD set = tmp →
      Drawing.run (ls.foldlM (Staging.step live) r) w =
        (.ok ⟨r.lines ++ ls.map (replaceFirst · set tmp), r.temporary, some set⟩, w)
  | [], ⟨lines, temporary, previous⟩, w, _, hp, _ => by
      cases hp
      simp
  | l :: ls, r, w, hs, hp, ht => by
      rw [Drawing.run_foldlM_cons, Staging.step_run_same w (hs l List.mem_cons_self) hl hp, ht]
      dsimp only
      rw [run_foldlM_same hl ls ⟨r.lines ++ [replaceFirst l set tmp], r.temporary, some set⟩ w
        (fun x hx => hs x (List.mem_cons_of_mem _ hx)) rfl ht]
      simp

theorem run_foldlM_block_dead {b : Block} (hb : b.Wf) (hl : b.name ∉ live) (r : Staging)
    (w : Words) :
    Drawing.run (b.lines.foldlM (Staging.step live) r) w =
      (.ok ⟨r.lines ++ b.lines, r.temporary, some b.name⟩, w) :=
  run_foldlM_dead hl _ _ r w (setOf_block_line hb)

/-- A live block draws a temporary name and is renamed to it. -/
theorem run_foldlM_block_live {b : Block} (hb : b.Wf) (hl : b.name ∈ live) {r : Staging}
    (hp : r.previous ≠ some b.name) (ht : b.name ∉ r.temporary.map (·.1)) (w : Words) :
    Drawing.run (b.lines.foldlM (Staging.step live) r) w =
      match Drawing.run (freshName live b.name (w.remaining + 1)) w with
      | (.ok tmp, w') => (.ok ⟨r.lines ++ b.lines.map (replaceFirst · b.name tmp),
          r.temporary ++ [(b.name, tmp)], some b.name⟩, w')
      | (.error e, w') => (.error e, w') := by
  have hs := setOf_block_line hb
  have hcreate := hs _ List.mem_cons_self
  unfold Block.lines at hs hcreate ⊢
  rw [Drawing.run_foldlM_cons, Staging.step_run_new w hcreate hl hp]
  rcases Drawing.run (freshName live b.name (w.remaining + 1)) w with ⟨_ | tmp, w'⟩
  · rfl
  · dsimp only
    rw [setTemporary_of_not_mem ht, temporary_append_new ht,
      run_foldlM_same hl _ _ w' (fun x hx => hs x (List.mem_cons_of_mem _ hx)) rfl
        (temporary_append_new ht tmp)]
    simp

end Staging

section Script

variable (live : List String) (tmpOf : String → String)

/-- The block a set is staged as: a live set under its temporary name. -/
def stageBlock (b : Block) : Block := if b.name ∈ live then b.rename (tmpOf b.name) else b

/-- The lines a block is staged as: those of a live set renamed, by the first
occurrence of its name, to its temporary name. -/
def stageLines (b : Block) : List String :=
  if b.name ∈ live then b.lines.map (replaceFirst · b.name (tmpOf b.name)) else b.lines

/-- The live sets among the blocks, each with its temporary name. -/
def stagePairs (bs : List Block) : List (String × String) :=
  (bs.filter (·.name ∈ live)).map fun b => (b.name, tmpOf b.name)

/-- Every live set among the blocks has a temporary name that is not live. -/
def Temporaries (bs : List Block) : Prop :=
  ∀ b ∈ bs, b.name ∈ live → tmpOf b.name ∉ live ∧ TempName b.name (tmpOf b.name)

variable {live tmpOf}

theorem stageBlock_of_mem {b : Block} (hl : b.name ∈ live) :
    stageBlock live tmpOf b = b.rename (tmpOf b.name) := by
  simp [stageBlock, hl]

theorem stageBlock_of_not_mem {b : Block} (hl : b.name ∉ live) : stageBlock live tmpOf b = b := by
  simp [stageBlock, hl]

theorem mem_stagePairs {bs : List Block} {p : String × String} :
    p ∈ stagePairs live tmpOf bs ↔ ∃ b ∈ bs, b.name ∈ live ∧ p = (b.name, tmpOf b.name) := by
  simp only [stagePairs, List.mem_map, List.mem_filter, decide_eq_true_eq]
  constructor
  · rintro ⟨b, ⟨hb, hl⟩, rfl⟩
    exact ⟨b, hb, hl, rfl⟩
  · rintro ⟨b, hb, hl, rfl⟩
    exact ⟨b, ⟨hb, hl⟩, rfl⟩

/-- The live names staged are distinct when the blocks' names are. -/
theorem stagePairs_keys_nodup {bs : List Block} (hnd : (bs.map (·.name)).Nodup) :
    ((stagePairs live tmpOf bs).map (·.1)).Nodup := by
  have hsub : ((stagePairs live tmpOf bs).map (·.1)).Sublist (bs.map (·.name)) := by
    simp only [stagePairs, List.map_map]
    exact (List.filter_sublist).map _
  exact hsub.nodup hnd

/-- The temporary names are distinct when the staged blocks' names are. -/
theorem stagePairs_tmps_nodup {bs : List Block}
    (hnd : ((bs.map (stageBlock live tmpOf)).map (·.name)).Nodup) :
    ((stagePairs live tmpOf bs).map (·.2)).Nodup := by
  have heq : (stagePairs live tmpOf bs).map (·.2) =
      (bs.filter (·.name ∈ live)).map fun b => (stageBlock live tmpOf b).name := by
    simp only [stagePairs, List.map_map]
    apply List.map_congr_left
    intro b hb
    simp [stageBlock_of_mem (of_decide_eq_true (List.mem_filter.mp hb).2)]
  rw [heq]
  rw [List.map_map] at hnd
  exact ((List.filter_sublist).map _).nodup hnd

theorem stage_congr {tmpOf' : String → String} {bs : List Block}
    (h : ∀ b ∈ bs, tmpOf b.name = tmpOf' b.name) :
    bs.flatMap (stageLines live tmpOf) = bs.flatMap (stageLines live tmpOf') ∧
      stagePairs live tmpOf bs = stagePairs live tmpOf' bs := by
  constructor
  · apply List.flatMap_congr
    intro b hb
    simp [stageLines, h b hb]
  · apply List.map_congr_left
    intro b hb
    simp [h b (List.mem_filter.mp hb).1]

/-- Staging a block script over the live sets: each live set draws a
temporary name that is not live, its lines are renamed to it, and the pair is
recorded; the other lines are kept. -/
theorem staging_run : ∀ (bs : List Block) (r r' : Staging) (w w' : Words),
    (∀ b ∈ bs, b.Wf) → (bs.map (·.name)).Nodup → (∀ b ∈ bs, r.previous ≠ some b.name) →
    (∀ b ∈ bs, b.name ∉ r.temporary.map (·.1)) → w.Plain →
    Drawing.run ((script bs).foldlM (Staging.step live) r) w = (.ok r', w') →
    ∃ tmpOf, Temporaries live tmpOf bs ∧ r'.lines = r.lines ++ bs.flatMap (stageLines live tmpOf) ∧
      r'.temporary = r.temporary ++ stagePairs live tmpOf bs ∧ w'.Plain
  | [], r, r', w, w', _, _, _, _, hw, h => by
      simp only [script, List.flatMap_nil, List.foldlM_nil, Drawing.run_pure, Prod.mk.injEq,
        Except.ok.injEq] at h
      obtain ⟨rfl, rfl⟩ := h
      exact ⟨id, by simp [Temporaries], by simp, by simp [stagePairs], hw⟩
  | b :: bs, r, r', w, w', hwf, hnd, hp, ht, hw, h => by
      have hb := hwf b List.mem_cons_self
      have hwf' := fun x hx => hwf x (List.mem_cons_of_mem b hx)
      rw [List.map_cons, List.nodup_cons] at hnd
      have hne : ∀ x ∈ bs, x.name ≠ b.name :=
        fun x hx e => hnd.1 (e ▸ List.mem_map_of_mem hx)
      -- after the block, the previous set is the block's own
      have hp' : ∀ x ∈ bs, some b.name ≠ some x.name :=
        fun x hx e => hne x hx (Option.some.inj e).symm
      rw [script, List.flatMap_cons, List.foldlM_append, Drawing.run_bind, ← script] at h
      by_cases hl : b.name ∈ live
      · rw [run_foldlM_block_live hb hl (hp b List.mem_cons_self) (ht b List.mem_cons_self)] at h
        rcases hf : Drawing.run (freshName live b.name (w.remaining + 1)) w with ⟨_ | tmp, w1⟩
        · rw [hf] at h
          cases h
        · rw [hf] at h
          dsimp only at h
          obtain ⟨htl, htmp, hw1⟩ := freshName_spec hw hf
          have ht' : ∀ x ∈ bs, x.name ∉ (r.temporary ++ [(b.name, tmp)]).map (·.1) := by
            intro x hx hm
            rw [List.map_append, List.mem_append] at hm
            rcases hm with hm | hm
            · exact ht x (List.mem_cons_of_mem b hx) hm
            · exact hne x hx (by simpa using hm)
          obtain ⟨tmpOf, htemp, hlines, hpairs, hw'⟩ :=
            staging_run bs _ r' w1 w' hwf' hnd.2 hp' ht' hw1 h
          have hagree : ∀ x ∈ bs, tmpOf x.name = (fun n => if n = b.name then tmp else tmpOf n) x.name :=
            fun x hx => by simp [hne x hx]
          obtain ⟨hl_eq, hp_eq⟩ := @stage_congr live tmpOf (fun n => if n = b.name then tmp else tmpOf n)
            bs hagree
          refine ⟨fun n => if n = b.name then tmp else tmpOf n, ?_, ?_, ?_, hw'⟩
          · intro x hx hxl
            rcases List.mem_cons.mp hx with rfl | hx
            · simpa using ⟨htl, htmp⟩
            · rw [← hagree x hx]
              exact htemp x hx hxl
          · rw [hlines, hl_eq]
            simp [stageLines, hl]
          · rw [hpairs, hp_eq]
            simp [stagePairs, hl]
      · rw [run_foldlM_block_dead hb hl] at h
        dsimp only at h
        have ht' : ∀ x ∈ bs, x.name ∉ r.temporary.map (·.1) :=
          fun x hx => ht x (List.mem_cons_of_mem b hx)
        obtain ⟨tmpOf, htemp, hlines, hpairs, hw'⟩ :=
          staging_run bs ⟨r.lines ++ b.lines, r.temporary, some b.name⟩ r' w w' hwf' hnd.2 hp' ht' hw h
        refine ⟨tmpOf, ?_, ?_, ?_, hw'⟩
        · intro x hx hxl
          rcases List.mem_cons.mp hx with rfl | hx
          · exact absurd hxl hl
          · exact htemp x hx hxl
        · rw [hlines]
          simp [stageLines, hl]
        · rw [hpairs]
          simp [stagePairs, hl]

theorem stageLines_forall₂ {b : Block} (hb : b.Wf)
    (ht : b.name ∈ live → TempName b.name (tmpOf b.name)) :
    List.Forall₂ (fun x y => x = y ∨ Broken x) (stageLines live tmpOf b)
      (stageBlock live tmpOf b).lines := by
  by_cases hl : b.name ∈ live
  · simp only [stageLines, stageBlock, hl, if_true]
    exact renamed_lines_forall₂ hb (ht hl)
  · simp only [stageLines, stageBlock, hl, if_false]
    exact List.forall₂_same.mpr fun x _ => .inl rfl

theorem stage_forall₂ : ∀ {bs : List Block}, (∀ b ∈ bs, b.Wf) → Temporaries live tmpOf bs →
    List.Forall₂ (fun x y => x = y ∨ Broken x) (bs.flatMap (stageLines live tmpOf))
      (script (bs.map (stageBlock live tmpOf)))
  | [], _, _ => by simp [script]
  | b :: bs, hwf, ht => by
      rw [List.flatMap_cons, List.map_cons, script, List.flatMap_cons, ← script]
      exact List.rel_append
        (stageLines_forall₂ (hwf b List.mem_cons_self) fun hl => (ht b List.mem_cons_self hl).2)
        (stage_forall₂ (fun x hx => hwf x (List.mem_cons_of_mem b hx))
          fun x hx => ht x (List.mem_cons_of_mem b hx))

theorem stageBlock_wf {bs : List Block} (hwf : ∀ b ∈ bs, b.Wf) (ht : Temporaries live tmpOf bs) :
    ∀ c ∈ bs.map (stageBlock live tmpOf), c.Wf := by
  intro c hc
  obtain ⟨b, hb, rfl⟩ := List.mem_map.mp hc
  by_cases hl : b.name ∈ live
  · rw [stageBlock_of_mem hl]
    exact (hwf b hb).rename ((ht b hb hl).2.isWord (hwf b hb).name_word)
  · rw [stageBlock_of_not_mem hl]
    exact hwf b hb

/-- When no live set's name lies inside a command word, the staged lines are
the staged blocks' lines. -/
theorem stageLines_eq {b : Block} (hb : b.Wf) (hc : b.name ∈ live → b.NameClear) :
    stageLines live tmpOf b = (stageBlock live tmpOf b).lines := by
  by_cases hl : b.name ∈ live
  · rw [stageLines, if_pos hl, stageBlock_of_mem hl]
    obtain ⟨hcreate, hadd⟩ := hc hl
    have lit_create : "create " = "create" ++ " " := rfl
    have lit_add : "add " = "add" ++ " " := rfl
    simp only [Block.lines, Block.rename, List.map_cons, List.map_map, lit_create, lit_add,
      List.cons.injEq]
    refine ⟨replaceFirst_command_line hb.name_word hcreate, ?_⟩
    apply List.map_congr_left
    intro e he
    exact replaceFirst_command_line hb.name_word (hadd (List.ne_nil_of_mem he))
  · rw [stageLines, if_neg hl, stageBlock_of_not_mem hl]

/-- The staged lines run only as the script of the staged blocks, whose sets
are then new. -/
theorem runAll_staged_some {bs : List Block} (hwf : ∀ b ∈ bs, b.Wf) (ht : Temporaries live tmpOf bs)
    {sets t : List IpSet} {rest : List String}
    (h : runAll sets (bs.flatMap (stageLines live tmpOf) ++ rest) = some t) :
    Fresh sets (bs.map (stageBlock live tmpOf)) ∧
      runAll (sets ++ (bs.map (stageBlock live tmpOf)).map Block.set) rest = some t := by
  rw [eq_of_runAll_some (stage_forall₂ hwf ht) h] at h
  exact (runAll_script_iff (stageBlock_wf hwf ht) sets t rest).mp h

end Script

end Ipset
end Firewall
