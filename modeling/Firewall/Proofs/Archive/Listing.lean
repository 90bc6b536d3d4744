import Firewall.Archive
import Firewall.Proofs.Host.World
import Firewall.Proofs.Host.Files
import Firewall.Proofs.Text.Order
import Firewall.Proofs.Text.Numeral

/-!
# Listing the archives

**Names.**  An archive's name ends with `Archive.suffix` and a temporary
file's with `Archive.tmpSuffix`; no name ends with both
(`endsWith_tmpSuffix_eq_false`).  The name of a new archive is its clock
stamp, all digits and the letter `T`, followed by the suffix
(`ArchiveName`, `stampName_archiveName`).

**Order.**  `newestFirst` sorts names from the greatest down by code points.
On whole names it gives one result for all permutations
(`newestFirst_eq_of_perm`), and its first `k` names are the `k` greatest of
all (`Newest`, `newest_take_newestFirst`).

**Numbering.**  The archives are numbered from zero, newest first
(`indexed_run`), and the text of a number finds the archive of that number
(`find_run_toString`).  `Retains` collects what a cleaned directory shows: its
archives, no temporary file, and the numbering.
-/

namespace Firewall
namespace Archive

/-! ### Names -/

theorem suffix_toList : suffix.toList = ['.', 't', 'a', 'r', '.', 'x', 'z'] := rfl

theorem tmpSuffix_toList : tmpSuffix.toList = ['.', 't', 'm', 'p'] := rfl

/-- No name ends with both an archive's suffix and a temporary file's. -/
theorem endsWith_tmpSuffix_eq_false {n : String} (h : n.endsWith suffix) :
    n.endsWith tmpSuffix = false := by
  rw [Text.endsWith_iff, suffix_toList] at h
  cases ht : n.endsWith tmpSuffix with
  | false => rfl
  | true =>
    rw [Text.endsWith_iff, tmpSuffix_toList] at ht
    -- two suffixes of one name: one is a suffix of the other
    rcases List.suffix_or_suffix_of_suffix h ht with h' | h' <;> exact absurd h' (by decide)

/-- The name of a temporary file is not an archive's. -/
theorem endsWith_suffix_tmp (n : String) : (n ++ tmpSuffix).endsWith suffix = false := by
  cases h : (n ++ tmpSuffix).endsWith suffix with
  | false => rfl
  | true =>
    have ht : (n ++ tmpSuffix).endsWith tmpSuffix = true := by
      rw [Text.endsWith_iff, String.toList_append]
      exact List.suffix_append _ _
    rw [endsWith_tmpSuffix_eq_false h] at ht
    cases ht

/-- The name of an archive: plain, whole, and ending with the suffix. -/
structure ArchiveName (n : String) : Prop where
  plain : Path.Plain n
  whole : Text.Whole n
  ends : n.endsWith suffix = true

theorem isDigit_of_mem_toString {n : Nat} {c : Char} (h : c ∈ (toString n).toList) :
    c.isDigit = true := by
  have hcs : (toString n).toList = Nat.toDigits 10 n := Nat.toList_repr
  rw [hcs] at h
  exact Nat.isDigit_of_mem_toDigits (by decide) (by decide) h

theorem isDigit_of_mem_twoDigits {n : Nat} {c : Char} (h : c ∈ (Clock.twoDigits n).toList) :
    c.isDigit = true := by
  unfold Clock.twoDigits at h
  split at h
  · rw [String.toList_append, List.mem_append] at h
    rcases h with h | h
    · rw [show "0".toList = ['0'] from rfl, List.mem_singleton] at h
      rw [h]
      rfl
    · exact isDigit_of_mem_toString h
  · exact isDigit_of_mem_toString h

/-- A clock stamp is made of digits and the letter `T`. -/
theorem stamp_chars {reading s : String} (h : Clock.stamp reading = .ok s) :
    ∀ c ∈ s.toList, c.isDigit = true ∨ c = 'T' := by
  unfold Clock.stamp at h
  cases hf : Clock.fields reading with
  | error e =>
    rw [hf] at h
    cases h
  | ok vs =>
    rw [hf] at h
    dsimp only [bind, Except.bind] at h
    split at h
    · cases h
      intro c hc
      simp only [String.toList_append, List.mem_append] at hc
      rcases hc with (((((hc | hc) | hc) | hc) | hc) | hc) | hc
      · exact .inl (isDigit_of_mem_toString hc)
      · exact .inl (isDigit_of_mem_twoDigits hc)
      · exact .inl (isDigit_of_mem_twoDigits hc)
      · rw [show "T".toList = ['T'] from rfl, List.mem_singleton] at hc
        exact .inr hc
      · exact .inl (isDigit_of_mem_twoDigits hc)
      · exact .inl (isDigit_of_mem_twoDigits hc)
      · exact .inl (isDigit_of_mem_twoDigits hc)
    · cases h
      simp

/-- A stamp followed by the suffix names an archive. -/
theorem archiveName_stamp {s : String} (hs : ∀ c ∈ s.toList, c.isDigit = true ∨ c = 'T') :
    ArchiveName (s ++ suffix) := by
  have hlow : ∀ c ∈ s.toList, 48 ≤ c.toNat ∧ c.toNat ≤ 84 := by
    intro c hc
    rcases hs c hc with hd | rfl
    · have := Char.isDigit_iff_toNat.mp hd
      simp only [Char.reduceToNat] at this
      omega
    · decide
  have hslash : '/' ∉ s.toList := fun hc => by simpa using hlow '/' hc
  refine ⟨⟨?_, ?_, ?_⟩, ?_, ?_⟩
  · intro he
    have := congrArg String.length he
    simp [← String.length_toList, suffix_toList] at this
  · intro he
    have := congrArg String.length he
    simp [← String.length_toList, suffix_toList] at this
  · simp [String.toList_append, suffix_toList, hslash]
  · apply Text.whole_of_lt
    intro c hc
    simp only [String.toList_append, List.mem_append, suffix_toList] at hc
    rcases hc with hc | hc
    · have := (hlow c hc).2
      omega
    · simp only [List.mem_cons, List.not_mem_nil, or_false] at hc
      rcases hc with rfl | rfl | rfl | rfl | rfl | rfl | rfl <;> decide
  · rw [Text.endsWith_iff, String.toList_append]
    exact List.suffix_append _ _

/-- The name given to a new archive names an archive. -/
theorem stampName_archiveName {reading n : String} (h : stampName reading = .ok n) :
    ArchiveName n := by
  unfold stampName at h
  cases hs : Clock.stamp reading with
  | error e =>
    rw [hs] at h
    cases h
  | ok s =>
    rw [hs] at h
    cases h
    exact archiveName_stamp (stamp_chars hs)

/-- The names listed in a directory name archives, if they are whole. -/
theorem archiveName_of_mem_namesIn {fs : Files} {dir n : String}
    (hw : ∀ m ∈ fs.namesIn dir suffix, Text.Whole m) (h : n ∈ fs.namesIn dir suffix) :
    ArchiveName n :=
  ⟨Files.plain_of_mem_namesIn (by decide) h, hw n h, Files.endsWith_of_mem_namesIn h⟩

/-! ### Order -/

variable {r r' : List String}

theorem newestFirst_perm (r : List String) : (newestFirst r).Perm r := List.mergeSort_perm _ _

theorem mem_newestFirst {n : String} : n ∈ newestFirst r ↔ n ∈ r := List.mem_mergeSort

/-- Sorted newest first: every name is at least each name after it. -/
theorem pairwise_newestFirst (r : List String) :
    (newestFirst r).Pairwise fun a b => Text.codeOrder b a = true :=
  @List.pairwise_mergeSort String (fun a b => Text.codeOrder b a)
    (fun _ _ _ hab hbc => Text.codeOrder_trans hbc hab)
    (fun a b => Text.codeOrder_total b a) r

/-- Permutations of whole names are sorted alike. -/
theorem newestFirst_eq_of_perm (hw : ∀ n ∈ r, Text.Whole n) (h : r.Perm r') :
    newestFirst r = newestFirst r' :=
  @Text.mergeSort_eq_of_perm (fun a b => Text.codeOrder b a)
    (fun _ _ _ hab hbc => Text.codeOrder_trans hbc hab)
    (fun a b => Text.codeOrder_total b a)
    (fun _ _ ha hb hab hba => ha.eq_of_codeOrder hb hba hab) _ _ hw h

/-- Names already sorted newest first stay as they are. -/
theorem newestFirst_of_pairwise (h : r.Pairwise fun a b => Text.codeOrder b a = true) :
    newestFirst r = r :=
  List.mergeSort_of_pairwise h

/-- Whole names that are a permutation of a list sorted newest first are
sorted into that list. -/
theorem newestFirst_eq (hw : ∀ n ∈ r, Text.Whole n) (h : r.Perm r')
    (hsorted : r'.Pairwise fun a b => Text.codeOrder b a = true) : newestFirst r = r' := by
  rw [newestFirst_eq_of_perm hw h, newestFirst_of_pairwise hsorted]

/-- `kept` lists the `k` greatest of the distinct names `names` by code
points (all of them if there are fewer), from the greatest down: each kept
name comes after those behind it and after every name left out, that is, it
is not at most any of them. -/
structure Newest (k : Nat) (names kept : List String) : Prop where
  sub : ∀ n ∈ kept, n ∈ names
  length : kept.length = min k names.length
  descending : kept.Pairwise fun a b => Text.codeOrder a b = false
  greatest : ∀ a ∈ kept, ∀ b ∈ names, b ∉ kept → Text.codeOrder a b = false

/-- The first `k` names sorted newest first are the `k` greatest. -/
theorem newest_take_newestFirst (hw : ∀ n ∈ r, Text.Whole n) (hnd : r.Nodup) (k : Nat) :
    Newest k r ((newestFirst r).take k) := by
  have hperm := newestFirst_perm r
  have hsorted := pairwise_newestFirst r
  have hnd' : (newestFirst r).Nodup := hperm.nodup_iff.mpr hnd
  have hwhole : ∀ n ∈ newestFirst r, Text.Whole n := fun n hn => hw n (hperm.mem_iff.mp hn)
  -- between distinct whole names the order is strict
  have hstrict : ∀ a ∈ newestFirst r, ∀ b ∈ newestFirst r, Text.codeOrder b a = true → b ≠ a →
      Text.codeOrder a b = false :=
    fun a ha b hb hba hne => Text.codeOrder_eq_false_of_codeOrder (hwhole b hb) (hwhole a ha) hba hne
  have hsplit := List.take_append_drop k (newestFirst r)
  refine ⟨fun n hn => hperm.mem_iff.mp (List.mem_of_mem_take hn), ?_, ?_, ?_⟩
  · rw [List.length_take, hperm.length_eq]
  · have hsub := List.take_sublist k (newestFirst r)
    refine ((hsorted.sublist hsub).and (hnd'.sublist hsub)).imp_of_mem ?_
    intro a b ha hb hab
    exact hstrict a (hsub.subset ha) b (hsub.subset hb) hab.1 (Ne.symm hab.2)
  · intro a ha b hb hbk
    have hb' : b ∈ newestFirst r := hperm.mem_iff.mpr hb
    rw [← hsplit, List.mem_append] at hb'
    have hdrop : b ∈ (newestFirst r).drop k := hb'.resolve_left hbk
    have hall := hsorted
    rw [← hsplit, List.pairwise_append] at hall
    exact hstrict a (List.mem_of_mem_take ha) b (List.mem_of_mem_drop hdrop)
      (hall.2.2 a ha b hdrop) (fun he => hbk (he ▸ ha))

/-! ### Numbering -/

theorem indexed_run (dir : String) (w : World) :
    Act.run (indexed dir) w =
      (.ok ((newestFirst (w.files.namesIn dir suffix)).zipIdx.map Prod.swap), w) := rfl

/-- In a numbering from `k`, the entry numbered `j` is found by its number. -/
theorem find?_zipIdx_number : ∀ (names : List String) (k j : Nat),
    (((names.zipIdx k).map Prod.swap).find? fun e => (e.1 : Int) == (j : Int)) =
      if h : k ≤ j ∧ j - k < names.length then some (j, names[j - k]) else none
  | [], k, j => by simp
  | n :: names, k, j => by
    rw [List.zipIdx_cons, List.map_cons, List.find?_cons, find?_zipIdx_number names (k + 1) j]
    by_cases hkj : k = j
    · subst hkj
      simp
    · have hne : ((k : Int) == (j : Int)) = false := by
        rw [beq_eq_false_iff_ne]
        exact fun h => hkj (Int.ofNat_inj.mp h)
      simp only [Prod.swap_prod_mk, hne]
      by_cases hin : k + 1 ≤ j ∧ j - (k + 1) < names.length
      · have hin' : k ≤ j ∧ j - k < names.length + 1 := by omega
        have hidx : j - k = j - (k + 1) + 1 := by omega
        simp only [dif_pos hin, dif_pos hin', List.length_cons]
        congr 2
        simp only [hidx, List.getElem_cons_succ]
      · have hout : ¬ (k ≤ j ∧ j - k < names.length + 1) := by omega
        simp only [dif_neg hin, List.length_cons, dif_neg hout]

/-- The text of a number, unless too long, finds the archive of that number,
or fails naming the number. -/
theorem find_run_toString (dir : String) (w : World) (i : Nat)
    (h : (toString i).length ≤ Text.digitLimit) :
    Act.run (find dir (.str (toString i))) w =
      let names := newestFirst (w.files.namesIn dir suffix)
      if h : i < names.length then (.ok names[i], w) else (.error (.noArchiveIndex i), w) := by
  have hkey : keyIndex (.str (toString i)) = .ok (some (i : Int)) := by
    simp only [keyIndex, Text.integer?_toString i h]
  have hfind := find?_zipIdx_number (newestFirst (w.files.namesIn dir suffix)) 0 i
  simp only [Nat.zero_le, Nat.sub_zero, true_and] at hfind
  unfold find
  simp only [Act.run_bind, hkey, Act.run_lift_ok, indexed_run]
  rw [hfind]
  by_cases hi : i < (newestFirst (w.files.namesIn dir suffix)).length
  · rw [dif_pos hi, dif_pos hi]
    rfl
  · rw [dif_neg hi, dif_neg hi]
    rfl

/-- What a cleaned archive directory shows: exactly the archives `kept`, no
temporary file, the archives numbered from zero in the order of `kept`, and
the text of each number finding the archive so numbered. -/
structure Retains (w : World) (dir : String) (kept : List String) : Prop where
  archives : (w.files.namesIn dir suffix).Perm kept
  noTemporary : w.files.namesIn dir tmpSuffix = []
  listed : Act.run (indexed dir) w = (.ok (kept.zipIdx.map Prod.swap), w)
  found : ∀ i : Nat, (toString i).length ≤ Text.digitLimit →
    Act.run (find dir (.str (toString i))) w =
      if h : i < kept.length then (.ok kept[i], w) else (.error (.noArchiveIndex i), w)

/-- A directory whose archives are a permutation of whole names sorted newest
first, with no temporary file, lists and finds them in that order. -/
theorem retains_of_perm {w : World} {dir : String} {kept : List String}
    (hperm : (w.files.namesIn dir suffix).Perm kept) (hw : ∀ n ∈ kept, Text.Whole n)
    (hsorted : kept.Pairwise fun a b => Text.codeOrder b a = true)
    (htmp : w.files.namesIn dir tmpSuffix = []) : Retains w dir kept := by
  have hnames : newestFirst (w.files.namesIn dir suffix) = kept :=
    newestFirst_eq (fun n hn => hw n (hperm.mem_iff.mp hn)) hperm hsorted
  refine ⟨hperm, htmp, ?_, ?_⟩
  · rw [indexed_run, hnames]
  · intro i hi
    rw [find_run_toString dir w i hi]
    simp only [hnames]

end Archive
end Firewall
