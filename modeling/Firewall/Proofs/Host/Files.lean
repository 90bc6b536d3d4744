import Firewall.Host.Files
import Firewall.Proofs.Text.Path

/-!
# The files of a directory

`Files.namesIn` lists the names of the files directly inside a directory
whose names end with a suffix.  It reads only the paths of the files
(`namesIn_eq`), and every change to the files is seen through the paths: a
write keeps a path or adds it last (`paths_write`), a removal drops it
(`paths_remove`), and a rename does both (`paths_rename`).

A file system is *tidy* (`Files.Tidy`) when its paths are distinct and in
normal form, as every path the firewall makes is.  In a tidy file system a
file of a directory in normal form sits at the join of the directory and its
name, so:

- removing the join of a name removes exactly the files of that name
  (`namesOf_filter_ne_join`), and a run of removals the files of all the
  names removed (`namesIn_removeAll`);
- a name is listed exactly when its join is a path (`mem_namesOf_iff`);
- the names of a directory are distinct (`nodup_namesOf`).
-/

namespace Firewall

namespace Text

theorem endsWith_iff (s t : String) : s.endsWith t = true ↔ t.toList <:+ s.toList := by
  simp [← String.endsWith_toSlice]

end Text

namespace Files

variable {fs : Files}

/-- The paths of the files, in creation order. -/
def paths (fs : Files) : List String := fs.files.map (·.1)

theorem isFile_iff_mem {p : String} : fs.isFile p = true ↔ p ∈ fs.paths := by
  simp [isFile, paths]

theorem find?_isSome_iff {p : String} : (fs.find? p).isSome ↔ p ∈ fs.paths := by
  simp [find?, paths, List.find?_isSome]

@[simp] theorem paths_makeDirs (d : String) : (fs.makeDirs d).paths = fs.paths := by
  unfold makeDirs
  split <;> rfl

theorem paths_write (p : String) (c : Content) :
    (fs.write p c).paths = if p ∈ fs.paths then fs.paths else fs.paths ++ [p] := by
  unfold write
  by_cases h : fs.isFile p = true
  · rw [if_pos h, if_pos (isFile_iff_mem.mp h)]
    simp only [paths, List.map_map]
    apply List.map_congr_left
    intro e _
    by_cases he : e.1 = p <;> simp [he]
  · rw [if_neg h, if_neg (fun hm => h (isFile_iff_mem.mpr hm))]
    simp [paths]

@[simp] theorem paths_remove (p : String) : (fs.remove p).paths = fs.paths.filter (· != p) := by
  simp only [remove, paths]
  rw [List.filter_map]
  rfl

theorem readText_of_mem {p : String} (h : p ∈ fs.paths) : ∃ s, fs.readText p = .ok s := by
  obtain ⟨c, hc⟩ := Option.isSome_iff_exists.mp (find?_isSome_iff.mpr h)
  unfold readText
  rw [hc]
  cases c with
  | text s => exact ⟨s, rfl⟩
  | archive _ _ _ => exact ⟨"", rfl⟩

theorem isDir_makeDirs (d : String) : (fs.makeDirs d).isDir d = true := by
  unfold makeDirs isDir
  split
  · rename_i h
    simp only [List.contains_iff_mem] at h
    simp only [Bool.or_eq_true, List.any_eq_true]
    exact .inl ⟨d, h, by simp⟩
  · simp

theorem mem_paths_write {q : String} (h : q ∈ fs.paths) (p : String) (c : Content) :
    q ∈ (fs.write p c).paths := by
  rw [paths_write]
  split
  · exact h
  · exact List.mem_append_left _ h

theorem paths_rename {src : String} (dst : String) (h : src ∈ fs.paths) :
    (fs.rename src dst).paths =
      if dst ∈ fs.paths.filter (· != src) then fs.paths.filter (· != src)
      else fs.paths.filter (· != src) ++ [dst] := by
  obtain ⟨c, hc⟩ := Option.isSome_iff_exists.mp (find?_isSome_iff.mpr h)
  unfold rename
  rw [hc, paths_write, paths_remove]

theorem rename_of_find? {src dst : String} {c : Content} (h : fs.find? src = some c) :
    fs.rename src dst = (fs.remove src).write dst c := by
  unfold rename
  rw [h]

/-- The paths are distinct and in normal form. -/
structure Tidy (fs : Files) : Prop where
  nodup : fs.paths.Nodup
  normal : ∀ p ∈ fs.paths, Path.Normal p

theorem Tidy.makeDirs (ht : fs.Tidy) (d : String) : (fs.makeDirs d).Tidy :=
  ⟨by simpa using ht.nodup, by simpa using ht.normal⟩

theorem Tidy.write (ht : fs.Tidy) {p : String} (hp : Path.Normal p) (c : Content) :
    (fs.write p c).Tidy := by
  have hpaths : (fs.write p c).paths = _ := paths_write p c
  split at hpaths
  · exact ⟨hpaths ▸ ht.nodup, hpaths ▸ ht.normal⟩
  · rename_i hnot
    constructor
    · rw [hpaths]
      refine List.nodup_append.mpr ⟨ht.nodup, by simp, ?_⟩
      intro a ha b hb
      rw [List.mem_singleton.mp hb]
      rintro rfl
      exact hnot ha
    · rw [hpaths]
      intro q hq
      rcases List.mem_append.mp hq with hq | hq
      · exact ht.normal q hq
      · rw [List.mem_singleton.mp hq]
        exact hp

theorem Tidy.remove (ht : fs.Tidy) (p : String) : (fs.remove p).Tidy :=
  ⟨by rw [paths_remove]; exact ht.nodup.filter _, by simpa using fun q hq _ => ht.normal q hq⟩

theorem Tidy.rename (ht : fs.Tidy) (src : String) {dst : String} (hdst : Path.Normal dst) :
    (fs.rename src dst).Tidy := by
  unfold Files.rename
  split
  · exact (ht.remove src).write hdst _
  · exact ht

section Names

variable {dir suffix : String}

/-- Whether a path is that of a file directly inside the directory, with a
name that ends with the suffix. -/
def Listed (dir suffix p : String) : Bool :=
  Path.parent p == dir && (Path.fileName p).endsWith suffix

/-- The names of a directory's files ending with a suffix, among paths. -/
def namesOf (dir suffix : String) (ps : List String) : List String :=
  (ps.filter (Listed dir suffix)).map Path.fileName

theorem namesIn_eq (fs : Files) (dir suffix : String) :
    fs.namesIn dir suffix = namesOf dir suffix fs.paths := by
  unfold namesIn namesOf paths Listed
  rw [List.filter_map, List.map_map]
  rfl

@[simp] theorem namesIn_makeDirs (d : String) :
    (fs.makeDirs d).namesIn dir suffix = fs.namesIn dir suffix := by
  rw [namesIn_eq, namesIn_eq, paths_makeDirs]

theorem namesOf_append (ps : List String) (p : String) :
    namesOf dir suffix (ps ++ [p]) =
      namesOf dir suffix ps ++ if Listed dir suffix p then [Path.fileName p] else [] := by
  unfold namesOf
  rw [List.filter_append, List.map_append]
  by_cases h : Listed dir suffix p = true <;> simp [h]

/-- The name of a listed file is plain, when the suffix is not empty. -/
theorem plain_of_listed (hsuffix : suffix ≠ "") {p : String} (h : Listed dir suffix p = true) :
    Path.Plain (Path.fileName p) := by
  simp only [Listed, Bool.and_eq_true, beq_iff_eq, Text.endsWith_iff] at h
  have hne : Path.fileName p ≠ "" := by
    intro he
    rw [he] at h
    exact hsuffix (String.toList_inj.mp (List.eq_nil_of_suffix_nil h.2))
  unfold Path.fileName at hne ⊢
  cases hl : (Path.parts p).getLast? with
  | none => simp [hl] at hne
  | some last => exact Path.plain_of_mem_parts (List.mem_of_getLast? hl)

theorem mem_namesIn_iff {n : String} :
    n ∈ fs.namesIn dir suffix ↔ ∃ p ∈ fs.paths, Listed dir suffix p ∧ Path.fileName p = n := by
  rw [namesIn_eq]
  unfold namesOf
  simp only [List.mem_map, List.mem_filter]
  constructor
  · rintro ⟨p, ⟨hp, hl⟩, rfl⟩
    exact ⟨p, hp, hl, rfl⟩
  · rintro ⟨p, hp, hl, rfl⟩
    exact ⟨p, ⟨hp, hl⟩, rfl⟩

/-- A listed name is plain, when the suffix is not empty. -/
theorem plain_of_mem_namesIn (hsuffix : suffix ≠ "") {n : String} (h : n ∈ fs.namesIn dir suffix) :
    Path.Plain n := by
  obtain ⟨p, _, hl, rfl⟩ := mem_namesIn_iff.mp h
  exact plain_of_listed hsuffix hl

/-- A listed name ends with the suffix. -/
theorem endsWith_of_mem_namesIn {n : String} (h : n ∈ fs.namesIn dir suffix) :
    n.endsWith suffix = true := by
  obtain ⟨p, _, hl, rfl⟩ := mem_namesIn_iff.mp h
  simp only [Listed, Bool.and_eq_true] at hl
  exact hl.2

/-- A listed file in normal form sits at the join of the directory and its name. -/
theorem eq_join_of_listed (hsuffix : suffix ≠ "") {p : String} (hp : Path.Normal p)
    (h : Listed dir suffix p = true) : Path.join dir (Path.fileName p) = p := by
  have hne : Path.fileName p ≠ "" := (plain_of_listed hsuffix h).1
  simp only [Listed, Bool.and_eq_true, beq_iff_eq] at h
  rw [← h.1]
  exact Path.join_parent_fileName hp hne

theorem listed_join (hdir : Path.Normal dir) {n : String} (hn : Path.Plain n) :
    Listed dir suffix (Path.join dir n) = n.endsWith suffix := by
  simp [Listed, Path.parent_join hdir hn, Path.fileName_join hdir hn]

variable {ps : List String}

/-- A plain name ending with the suffix is listed exactly when its join is a path. -/
theorem mem_namesOf_iff (hsuffix : suffix ≠ "") (hdir : Path.Normal dir)
    (hps : ∀ p ∈ ps, Path.Normal p) {n : String} (hn : Path.Plain n) (hend : n.endsWith suffix) :
    n ∈ namesOf dir suffix ps ↔ Path.join dir n ∈ ps := by
  unfold namesOf
  constructor
  · intro hm
    obtain ⟨p, hp, rfl⟩ := List.mem_map.mp hm
    obtain ⟨hmem, hlisted⟩ := List.mem_filter.mp hp
    rw [eq_join_of_listed hsuffix (hps p hmem) hlisted]
    exact hmem
  · intro hm
    refine List.mem_map.mpr ⟨Path.join dir n, List.mem_filter.mpr ⟨hm, ?_⟩, Path.fileName_join hdir hn⟩
    rw [listed_join hdir hn, hend]

/-- Removing the join of a plain name removes exactly the listed files of that name. -/
theorem namesOf_filter_ne_join (hsuffix : suffix ≠ "") (hdir : Path.Normal dir)
    (hps : ∀ p ∈ ps, Path.Normal p) {n : String} (hn : Path.Plain n) :
    namesOf dir suffix (ps.filter (· != Path.join dir n)) =
      (namesOf dir suffix ps).filter (· != n) := by
  unfold namesOf
  have hcomm : (ps.filter (· != Path.join dir n)).filter (Listed dir suffix) =
      (ps.filter (Listed dir suffix)).filter (· != Path.join dir n) := by
    rw [List.filter_filter, List.filter_filter]
    exact List.filter_congr fun p _ => Bool.and_comm _ _
  rw [hcomm, List.filter_map]
  congr 1
  apply List.filter_congr
  intro p hp
  obtain ⟨hmem, hlisted⟩ := List.mem_filter.mp hp
  have hjoin := eq_join_of_listed hsuffix (hps p hmem) hlisted
  -- within the directory, a path is the join of its name
  by_cases he : Path.fileName p = n
  · have hp' : p = Path.join dir n := by rw [← he, hjoin]
    subst hp'
    simp [Path.fileName_join hdir hn]
  · have hne : p ≠ Path.join dir n := fun h => he (by rw [h, Path.fileName_join hdir hn])
    rw [bne_iff_ne.mpr hne]
    exact (bne_iff_ne.mpr he).symm

/-- The names of a directory are distinct. -/
theorem nodup_namesOf (hsuffix : suffix ≠ "") (hnd : ps.Nodup) (hps : ∀ p ∈ ps, Path.Normal p) :
    (namesOf dir suffix ps).Nodup := by
  unfold namesOf
  refine List.pairwise_map.mpr ((hnd.filter _).imp_of_mem ?_)
  intro p q hp hq hne he
  obtain ⟨hpm, hpl⟩ := List.mem_filter.mp hp
  obtain ⟨hqm, hql⟩ := List.mem_filter.mp hq
  apply hne
  rw [← eq_join_of_listed hsuffix (hps p hpm) hpl, ← eq_join_of_listed hsuffix (hps q hqm) hql, he]

/-- Writing a path that is not listed keeps the names. -/
theorem namesIn_write_of_unlisted {p : String} (h : Listed dir suffix p = false) (c : Content) :
    (fs.write p c).namesIn dir suffix = fs.namesIn dir suffix := by
  rw [namesIn_eq, namesIn_eq, paths_write]
  split
  · rfl
  · rw [namesOf_append, h]
    simp

/-- Removing a path that is not listed keeps the names. -/
theorem namesIn_remove_of_unlisted {p : String} (h : Listed dir suffix p = false) :
    (fs.remove p).namesIn dir suffix = fs.namesIn dir suffix := by
  rw [namesIn_eq, namesIn_eq, paths_remove]
  unfold namesOf
  rw [List.filter_filter]
  congr 1
  apply List.filter_congr
  intro q _
  by_cases hq : q = p
  · simp [hq, h]
  · simp [hq]

/-- Writing the join of a plain name that ends with the suffix lists the name,
last if it is new. -/
theorem namesIn_write_join (hdir : Path.Normal dir) (ht : fs.Tidy) {n : String} (hn : Path.Plain n)
    (hsuffix : suffix ≠ "") (hend : n.endsWith suffix) (c : Content) :
    (fs.write (Path.join dir n) c).namesIn dir suffix =
      if n ∈ fs.namesIn dir suffix then fs.namesIn dir suffix
      else fs.namesIn dir suffix ++ [n] := by
  have hmem := mem_namesOf_iff hsuffix hdir ht.normal hn hend
  rw [namesIn_eq, namesIn_eq, paths_write]
  by_cases hp : Path.join dir n ∈ fs.paths
  · rw [if_pos hp, if_pos (hmem.mpr hp)]
  · rw [if_neg hp, if_neg (fun h => hp (hmem.mp h)), namesOf_append, listed_join hdir hn, hend,
      if_pos rfl, Path.fileName_join hdir hn]

/-- The files left when the files of some names are removed from a directory. -/
def removeAll (fs : Files) (dir : String) (names : List String) : Files :=
  names.foldl (fun fs n => fs.remove (Path.join dir n)) fs

@[simp] theorem removeAll_nil (fs : Files) : fs.removeAll dir [] = fs := rfl

@[simp] theorem removeAll_cons (fs : Files) (n : String) (ns : List String) :
    fs.removeAll dir (n :: ns) = (fs.remove (Path.join dir n)).removeAll dir ns := rfl

theorem Tidy.removeAll : ∀ {fs : Files} (ns : List String), fs.Tidy → (fs.removeAll dir ns).Tidy
  | _, [], ht => ht
  | _, _ :: ns, ht => Tidy.removeAll ns (ht.remove _)

/-- The names of a directory of a tidy file system are distinct. -/
theorem Tidy.nodup_namesIn (ht : fs.Tidy) (hsuffix : suffix ≠ "") : (fs.namesIn dir suffix).Nodup := by
  rw [namesIn_eq]
  exact nodup_namesOf hsuffix ht.nodup ht.normal

/-- Removing the joins of plain names removes exactly the files of those names. -/
theorem namesIn_removeAll (hsuffix : suffix ≠ "") (hdir : Path.Normal dir) :
    ∀ (ns : List String) (fs : Files), fs.Tidy → (∀ n ∈ ns, Path.Plain n) →
      (fs.removeAll dir ns).namesIn dir suffix = (fs.namesIn dir suffix).filter (· ∉ ns)
  | [], fs, _, _ => by
    simp only [removeAll_nil, List.not_mem_nil, not_false_eq_true, decide_true]
    exact (List.filter_eq_self.mpr fun _ _ => rfl).symm
  | n :: ns, fs, ht, hns => by
    have hn : Path.Plain n := hns n List.mem_cons_self
    rw [removeAll_cons, namesIn_removeAll hsuffix hdir ns _ (ht.remove _)
      (fun m hm => hns m (List.mem_cons_of_mem _ hm)), namesIn_eq, paths_remove,
      namesOf_filter_ne_join hsuffix hdir ht.normal hn, List.filter_filter, namesIn_eq]
    apply List.filter_congr
    intro m _
    by_cases h : m = n <;> simp [h]

end Names

end Files
end Firewall
