import Firewall.Deploy
import Firewall.Proofs.Archive.Listing

/-!
# Keeping the newest archives

Archiving writes the restore files into a new archive, named after the clock
reading, and then cleans the archive directory: the temporary files left
behind go, and of the archives only the `keep` newest stay.  A count of zero
writes nothing and keeps nothing; a negative count is refused before any file
is removed.

**Steps.**  Each step of `Deploy.archive` has its run:

* `clean_run`: cleaning with a count of at least zero removes every temporary
  file, then all archives past the count in the newest-first order;
  `clean_run_neg`: a negative count is refused and changes nothing;
* `write_run`: writing an archive whose restore files exist succeeds, and
  lists the archive's name, last if it is new (`namesIn_written`);
* `run_nextReading`: the clock gives its next reading.

On a tidy file system (`Files.Tidy`) the names a clean leaves are the newest
(`namesIn_cleaned`), so the directory then shows exactly them, in order
(`clean_retains`, with `Retains` from `Proofs.Archive.Listing`).  After a
write the archives are the previous ones and the new one, up to order, so a
clean then keeps the newest among them (`clean_retains_of_written`).

**Result.**  `archive_keeps_newest`: with a count of at least one, the
archives afterwards are the `keep` greatest names (`Newest`) among the
previous ones and the new one, numbered from the greatest down; with a count
of zero there are none; with a negative count the run fails, having made
the directory and removed nothing.
-/

namespace Firewall
namespace Archive

variable {fs : Files} {dir : String}

/-! ### Cleaning -/

/-- Cleaning with a count of at least zero removes the temporary files, then
every archive past the count, newest first. -/
theorem clean_run {keep : Int} (hk : 0 ≤ keep) (dir : String) (w : World) :
    ∃ w', Act.run (clean dir (.int keep)) w = (.ok (), w') ∧
      w'.files = (w.files.removeAll dir (w.files.namesIn dir tmpSuffix)).removeAll dir
        ((newestFirst ((w.files.removeAll dir (w.files.namesIn dir tmpSuffix)).namesIn dir suffix)).drop
          keep.toNat) := by
  have hbelow : below (.int keep) 0 = .ok false := by
    simp [below]
    omega
  unfold clean
  simp only [Act.run_bind, hbelow, Act.run_lift_ok, Bool.false_eq_true, if_false, Act.run_get]
  rw [Act.run_forIn _ (fun tmp w => { w with files := w.files.remove (Path.join dir tmp) })
    (fun _ _ => rfl)]
  simp only [count, Act.run_lift_ok, indexed_run]
  rw [Act.run_forIn _ (fun e w => { w with
      logs := w.logs ++ [(.debug, "Removing ruleset archive '" ++ Path.join dir e.2 ++ "'")],
      files := w.files.remove (Path.join dir e.2) }) (fun _ _ => rfl)]
  refine ⟨_, rfl, ?_⟩
  have htmp := World.files_foldl (fun tmp w => { w with files := w.files.remove (Path.join dir tmp) })
    (fun tmp fs => fs.remove (Path.join dir tmp)) (fun _ _ => rfl) (w.files.namesIn dir tmpSuffix) w
  rw [World.files_foldl (fun (e : Nat × String) w => { w with
      logs := w.logs ++ [(.debug, "Removing ruleset archive '" ++ Path.join dir e.2 ++ "'")],
      files := w.files.remove (Path.join dir e.2) })
    (fun e fs => fs.remove (Path.join dir e.2)) (fun _ _ => rfl), htmp]
  -- the loop runs over the numbered names; only the names matter
  conv_rhs => rw [← List.zipIdx_map_fst 0 (newestFirst _)]
  simp only [Files.removeAll, ← List.map_drop, List.foldl_map]
  rfl

/-- A negative count is refused, and nothing changes. -/
theorem clean_run_neg {keep : Int} (hk : keep < 0) (dir : String) (w : World) :
    Act.run (clean dir (.int keep)) w = (.error .negativeKeep, w) := by
  have hbelow : below (.int keep) 0 = .ok true := by simp [below, hk]
  unfold clean
  simp only [Act.run_bind, hbelow, Act.run_lift_ok, if_true]
  rfl

/-- In a list without repeats, the names not among its last places are its first. -/
theorem filter_not_mem_drop {L : List String} (hnd : L.Nodup) (k : Nat) :
    L.filter (fun n => n ∉ L.drop k) = L.take k := by
  have hsplit := List.take_append_drop k L
  have hnd' : (L.take k ++ L.drop k).Nodup := by rw [hsplit]; exact hnd
  have hdisj := (List.nodup_append.mp hnd').2.2
  have hfilter : L.filter (fun n => n ∉ L.drop k) =
      (L.take k ++ L.drop k).filter (fun n => n ∉ L.drop k) := by rw [hsplit]
  rw [hfilter, List.filter_append, List.filter_eq_self.mpr, List.filter_eq_nil_iff.mpr,
    List.append_nil]
  · intro n hn
    simpa using hn
  · intro n hn
    simpa using fun hd => hdisj n hn n hd rfl

/-- Cleaning the files of a directory: the temporary files go, and of the
archives the `k` newest stay. -/
theorem namesIn_cleaned (hdir : Path.Normal dir) (ht : fs.Tidy) (k : Nat) :
    let cleared := fs.removeAll dir (fs.namesIn dir tmpSuffix)
    let kept := cleared.removeAll dir ((newestFirst (cleared.namesIn dir suffix)).drop k)
    kept.namesIn dir tmpSuffix = [] ∧
      (kept.namesIn dir suffix).Perm ((newestFirst (fs.namesIn dir suffix)).take k) := by
  intro cleared kept
  have htmpPlain : ∀ n ∈ fs.namesIn dir tmpSuffix, Path.Plain n :=
    fun n hn => Files.plain_of_mem_namesIn (by decide) hn
  have hcleared : cleared.namesIn dir tmpSuffix = [] := by
    rw [Files.namesIn_removeAll (by decide) hdir _ _ ht htmpPlain]
    simp
  -- no archive's name is a temporary file's
  have harchives : cleared.namesIn dir suffix = fs.namesIn dir suffix := by
    rw [Files.namesIn_removeAll (by decide) hdir _ _ ht htmpPlain]
    apply List.filter_eq_self.mpr
    intro n hn
    have hend := endsWith_tmpSuffix_eq_false (Files.endsWith_of_mem_namesIn hn)
    simp only [decide_eq_true_eq]
    intro htmp
    rw [Files.endsWith_of_mem_namesIn htmp] at hend
    cases hend
  have hnd := (newestFirst_perm (fs.namesIn dir suffix)).nodup_iff.mpr (ht.nodup_namesIn (by decide))
  have hdropPlain : ∀ n ∈ (newestFirst (fs.namesIn dir suffix)).drop k, Path.Plain n :=
    fun n hn => Files.plain_of_mem_namesIn (by decide)
      (mem_newestFirst.mp (List.mem_of_mem_drop hn))
  have htidy : cleared.Tidy := ht.removeAll _
  refine ⟨?_, ?_⟩
  · show (cleared.removeAll dir _).namesIn dir tmpSuffix = []
    rw [harchives, Files.namesIn_removeAll (by decide) hdir _ _ htidy hdropPlain, hcleared]
    rfl
  · show ((cleared.removeAll dir _).namesIn dir suffix).Perm _
    rw [harchives, Files.namesIn_removeAll (by decide) hdir _ _ htidy hdropPlain, harchives,
      ← filter_not_mem_drop hnd k]
    exact ((newestFirst_perm _).symm).filter _

/-- Cleaning with a count of at least zero keeps that many of the newest
archives and no temporary file, numbered newest first. -/
theorem clean_retains {w : World} {keep : Int} (hk : 0 ≤ keep) (hdir : Path.Normal dir)
    (ht : w.files.Tidy) (hw : ∀ n ∈ w.files.namesIn dir suffix, Text.Whole n) :
    ∃ w', Act.run (clean dir (.int keep)) w = (.ok (), w') ∧
      Retains w' dir ((newestFirst (w.files.namesIn dir suffix)).take keep.toNat) := by
  obtain ⟨w', hrun, hfiles⟩ := clean_run hk dir w
  obtain ⟨htmp, hperm⟩ := namesIn_cleaned hdir ht keep.toNat
  refine ⟨w', hrun, retains_of_perm (hfiles ▸ hperm) ?_ ?_ (hfiles ▸ htmp)⟩
  · intro n hn
    exact hw n (mem_newestFirst.mp (List.mem_of_mem_take hn))
  · exact (pairwise_newestFirst _).sublist (List.take_sublist _ _)

/-! ### Writing -/

section Write

variable {name : String}

theorem tmp_eq_join (hdir : Path.Normal dir) (hname : ArchiveName name) :
    Path.join dir name ++ tmpSuffix = Path.join dir (name ++ tmpSuffix) :=
  Path.join_append hdir hname.plain (by simp [tmpSuffix_toList])

theorem plain_tmp (hname : ArchiveName name) : Path.Plain (name ++ tmpSuffix) :=
  hname.plain.append (by simp [tmpSuffix_toList])

theorem normal_tmp (hdir : Path.Normal dir) (hname : ArchiveName name) :
    Path.Normal (Path.join dir name ++ tmpSuffix) := by
  rw [tmp_eq_join hdir hname]
  exact Path.normal_join hdir (plain_tmp hname)

/-- An archive's temporary file is not listed among the archives. -/
theorem listed_tmp (hdir : Path.Normal dir) (hname : ArchiveName name) :
    Files.Listed dir suffix (Path.join dir name ++ tmpSuffix) = false := by
  rw [tmp_eq_join hdir hname, Files.listed_join hdir (plain_tmp hname), endsWith_suffix_tmp]

/-- Writing an archive through its temporary file lists its name, last if it
is new, and keeps the files tidy. -/
theorem namesIn_written (hdir : Path.Normal dir) (hname : ArchiveName name) (ht : fs.Tidy)
    (c : Content) :
    let tmp := Path.join dir name ++ tmpSuffix
    let written := (fs.write tmp c).rename tmp (Path.join dir name)
    written.Tidy ∧ written.namesIn dir suffix =
      if name ∈ fs.namesIn dir suffix then fs.namesIn dir suffix
      else fs.namesIn dir suffix ++ [name] := by
  intro tmp written
  have hwritten : written = ((fs.write tmp c).remove tmp).write (Path.join dir name) c :=
    Files.rename_of_find? (Files.find?_write_self fs tmp c)
  have hcleared : ((fs.write tmp c).remove tmp).namesIn dir suffix = fs.namesIn dir suffix := by
    rw [Files.namesIn_remove_of_unlisted (listed_tmp hdir hname),
      Files.namesIn_write_of_unlisted (listed_tmp hdir hname)]
  have htidy : ((fs.write tmp c).remove tmp).Tidy := (ht.write (normal_tmp hdir hname) c).remove tmp
  rw [hwritten]
  refine ⟨htidy.write (Path.normal_join hdir hname.plain) c, ?_⟩
  rw [Files.namesIn_write_join hdir htidy hname.plain (by decide) hname.ends, hcleared]

/-- Opening the temporary file unless it exists succeeds, and changes the
files at most by writing the temporary file. -/
theorem run_openTmp {fs : Files} {w w' : World} {r : Except Fault Unit}
    (h : Act.run (if (!fs.isFile (Path.join dir name ++ tmpSuffix)) = true then
        Act.createFile (Path.join dir name ++ tmpSuffix) (.text "") else pure ()) w = (r, w'))
    (hw : w.files = fs) (hdir : Path.Normal dir) (hname : ArchiveName name)
    (hmade : fs.isDir dir = true) :
    r = .ok () ∧ w'.files = if fs.isFile (Path.join dir name ++ tmpSuffix) then fs
      else fs.write (Path.join dir name ++ tmpSuffix) (.text "") := by
  subst hw
  cases hfile : w.files.isFile (Path.join dir name ++ tmpSuffix) with
  | true =>
    simp only [hfile, Bool.not_true, Bool.false_eq_true, if_false, Act.run_pure,
      Prod.mk.injEq] at h
    exact ⟨h.1.symm, by rw [← h.2, if_pos rfl]⟩
  | false =>
    have hparent : Path.parent (Path.join dir name ++ tmpSuffix) = dir := by
      rw [tmp_eq_join hdir hname, Path.parent_join hdir (plain_tmp hname)]
    rw [← hparent] at hmade
    simp only [hfile, Bool.not_false, if_true, Act.run_createFile hmade, Prod.mk.injEq] at h
    exact ⟨h.1.symm, by rw [← h.2]; rfl⟩

/-- Writing an archive whose restore files exist succeeds; it lists the
archive's name, last if it is new, and keeps the files tidy. -/
theorem write_run {w : World} {p₁ p₂ p₃ : String} (hdir : Path.Normal dir)
    (hname : ArchiveName name) (ht : w.files.Tidy) (hmade : w.files.isDir dir = true)
    (h₁ : p₁ ∈ w.files.paths) (h₂ : p₂ ∈ w.files.paths) (h₃ : p₃ ∈ w.files.paths) :
    ∃ w', Act.run (write dir name (Act.readText p₁) (Act.readText p₂) (Act.readText p₃)) w =
        (.ok (), w') ∧ w'.files.Tidy ∧
      w'.files.namesIn dir suffix =
        if name ∈ w.files.namesIn dir suffix then w.files.namesIn dir suffix
        else w.files.namesIn dir suffix ++ [name] := by
  unfold write
  simp only [Act.run_bind, Act.run_log, Act.run_get]
  rw [Act.run_ite_bind, Act.run_bind]
  split
  rotate_left
  · rename_i hopen
    cases (run_openTmp hopen rfl hdir hname hmade).1
  rename_i _ w₁ hopen
  obtain ⟨-, hfiles⟩ := run_openTmp hopen rfl hdir hname hmade
  -- once the temporary file is open, the files are tidy, list the same
  -- archives and keep every path
  have hsub : ∀ p ∈ w.files.paths, p ∈ w₁.files.paths := by
    intro p hp
    rw [hfiles]
    split
    · exact hp
    · exact Files.mem_paths_write hp _ _
  have htidy : w₁.files.Tidy := by
    rw [hfiles]
    split
    · exact ht
    · exact ht.write (normal_tmp hdir hname) _
  have hnames : w₁.files.namesIn dir suffix = w.files.namesIn dir suffix := by
    rw [hfiles]
    split
    · rfl
    · exact Files.namesIn_write_of_unlisted (listed_tmp hdir hname) _
  obtain ⟨s₁, hs₁⟩ := Files.readText_of_mem (hsub p₁ h₁)
  obtain ⟨s₂, hs₂⟩ := Files.readText_of_mem (hsub p₂ h₂)
  obtain ⟨s₃, hs₃⟩ := Files.readText_of_mem (hsub p₃ h₃)
  simp only [Act.run_bind, Act.run_readText, hs₁, hs₂, hs₃, Act.run_editFiles, Act.run_log]
  refine ⟨_, rfl, ?_⟩
  obtain ⟨htidy', hnames'⟩ := namesIn_written hdir hname htidy (.archive s₁ s₂ s₃)
  rw [← hnames]
  exact ⟨htidy', hnames'⟩

end Write

/-! ### Archiving -/

/-- The clock gives its next reading, and fails when it has none. -/
theorem run_nextReading (w : World) :
    Act.run nextReading w = match w.clock with
      | r :: rest => (.ok r, { w with clock := rest })
      | [] => (.error .clockExhausted, w) := by
  obtain ⟨host, files, words, clock, calls, printed, logs⟩ := w
  cases clock <;> rfl

/-- Adding a name last unless it is there is inserting it, up to order. -/
theorem ite_append_perm_insert (l : List String) (a : String) :
    (if a ∈ l then l else l ++ [a]).Perm (l.insert a) := by
  split
  · rename_i h
    rw [List.insert_of_mem h]
  · rename_i h
    rw [List.insert_of_not_mem h]
    exact List.perm_append_singleton a l

/-- Cleaning after a write that added a name to the archives keeps the
newest among the previous names and the new one. -/
theorem clean_retains_of_written {w : World} {names : List String} {name : String} {keep : Int}
    (hk : 0 ≤ keep) (hdir : Path.Normal dir) (ht : w.files.Tidy) (hname : ArchiveName name)
    (hw : ∀ n ∈ names, Text.Whole n)
    (hnames : w.files.namesIn dir suffix = if name ∈ names then names else names ++ [name]) :
    ∃ w', Act.run (clean dir (.int keep)) w = (.ok (), w') ∧
      ∃ kept, Newest keep.toNat (names.insert name) kept ∧ Retains w' dir kept := by
  -- the listing is the insertion up to order, so it sorts as the insertion does
  have hperm : (w.files.namesIn dir suffix).Perm (names.insert name) :=
    hnames ▸ ite_append_perm_insert names name
  have hwhole : ∀ n ∈ names.insert name, Text.Whole n := by
    intro n hn
    rcases List.mem_insert_iff.mp hn with rfl | hn
    · exact hname.whole
    · exact hw n hn
  have hnodup : (names.insert name).Nodup := hperm.nodup_iff.mp (ht.nodup_namesIn (by decide))
  obtain ⟨w', hrun, hret⟩ :=
    clean_retains hk hdir ht fun n hn => hwhole n (hperm.mem_iff.mp hn)
  rw [newestFirst_eq_of_perm (fun n hn => hwhole n (hperm.mem_iff.mp hn)) hperm] at hret
  exact ⟨w', hrun, _, newest_take_newestFirst hwhole hnodup _, hret⟩

/-- Archiving keeps the newest archives.  On a tidy file system, with the
archive directory in normal form and its archive names whole:

- with a count of at least one, a clock reading that makes a stamp and
  restore files that exist, archiving succeeds, and the archives afterwards
  are the `keep` greatest among the previous names and the new
  `<stamp>.tar.xz` (all of them if there are fewer), with no temporary file,
  numbered from the greatest down as the lookup by a number's text resolves;
- with a count of zero it succeeds and leaves neither archives nor
  temporary files;
- with a negative count it fails, having made the directory and removed
  nothing. -/
theorem archive_keeps_newest {cfg : Config} {w : World} {keep : Int}
    (hkeep : cfg.tree.path ["archive", "keep"] = .ok (.int keep))
    (hdir : Path.Normal cfg.archiveDir) (ht : w.files.Tidy)
    (hw : ∀ n ∈ w.files.namesIn cfg.archiveDir suffix, Text.Whole n) :
    (∀ (reading : String) (later : List String) (stamp : String), 1 ≤ keep →
      w.clock = reading :: later → Clock.stamp reading = .ok stamp →
      (∀ kind, Deploy.restoreFile cfg kind ∈ w.files.paths) →
      ∃ w', Act.run (Deploy.archive cfg) w = (.ok (), w') ∧
        ∃ kept, Newest keep.toNat ((w.files.namesIn cfg.archiveDir suffix).insert (stamp ++ suffix))
          kept ∧ Retains w' cfg.archiveDir kept) ∧
    (keep = 0 → ∃ w', Act.run (Deploy.archive cfg) w = (.ok (), w') ∧ Retains w' cfg.archiveDir []) ∧
    (keep < 0 → Act.run (Deploy.archive cfg) w =
      (.error .negativeKeep, { w with files := w.files.makeDirs cfg.archiveDir })) := by
  refine ⟨fun reading later stamp hk hclock hstamp hrestore => ?_, fun hk => ?_, fun hk => ?_⟩
  · have hbelow : below (.int keep) 1 = .ok false := by
      simp [below]
      omega
    have hname : stampName reading = .ok (stamp ++ suffix) := by
      simp [stampName, hstamp]
    unfold Deploy.archive
    simp only [Act.run_bind, hkeep, Act.run_lift_ok, Act.run_editFiles, hbelow, Bool.false_eq_true,
      if_false, run_nextReading, hclock, hname]
    -- the world once the directory is made and the clock read
    generalize hw₁ : ({ w with files := w.files.makeDirs cfg.archiveDir, clock := later } : World) = w₁
    have hfiles₁ : w₁.files = w.files.makeDirs cfg.archiveDir := by rw [← hw₁]
    obtain ⟨w₂, hrun₂, htidy₂, hnames₂⟩ := write_run hdir (stampName_archiveName hname)
      (hfiles₁ ▸ ht.makeDirs _) (hfiles₁ ▸ Files.isDir_makeDirs _)
      (by simpa [hfiles₁] using hrestore .iptables) (by simpa [hfiles₁] using hrestore .ip6tables)
      (by simpa [hfiles₁] using hrestore .ipsets)
    rw [hrun₂]
    -- the archives after writing are the previous ones and the new one
    rw [hfiles₁, Files.namesIn_makeDirs] at hnames₂
    exact clean_retains_of_written (by omega) hdir htidy₂ (stampName_archiveName hname) hw hnames₂
  · subst hk
    have hbelow : below (.int 0) 1 = .ok true := rfl
    unfold Deploy.archive
    simp only [Act.run_bind, hkeep, Act.run_lift_ok, Act.run_editFiles, hbelow, if_true]
    generalize hw₁ : ({ w with files := w.files.makeDirs cfg.archiveDir } : World) = w₁
    have hfiles₁ : w₁.files = w.files.makeDirs cfg.archiveDir := by rw [← hw₁]
    obtain ⟨w₂, hrun₂, hret⟩ := clean_retains (Int.le_refl 0) hdir (hfiles₁ ▸ ht.makeDirs _)
      (by rw [hfiles₁, Files.namesIn_makeDirs]; exact hw)
    exact ⟨w₂, hrun₂, hret⟩
  · have hbelow : below (.int keep) 1 = .ok true := by
      simp [below]
      omega
    unfold Deploy.archive
    simp only [Act.run_bind, hkeep, Act.run_lift_ok, Act.run_editFiles, hbelow, if_true,
      clean_run_neg hk]

/-- Keep two archives, in `/srv/archive`. -/
def keepTwo : Config :=
  ⟨.dict [(.str "archive", .dict [(.str "keep", .int 2)])], default,
    ⟨"/srv/rules/iptables", "/srv/rules/ip6tables", "/srv/rules/ipsets"⟩, "/srv/archive"⟩

/-- The restore files, two archives and a temporary file left behind, and
one clock reading to come. -/
def twoArchived : World :=
  ⟨.programs,
    ⟨[("/srv/rules/iptables", .text ""), ("/srv/rules/ip6tables", .text ""),
      ("/srv/rules/ipsets", .text ""),
      ("/srv/archive/20240101T000000.tar.xz", .archive "" "" ""),
      ("/srv/archive/20240301T000000.tar.xz", .archive "" "" ""),
      ("/srv/archive/20240301T000000.tar.xz.tmp", .text "")], []⟩,
    Ipset.Words.ofList [], ["2024-06-01T12:00:00"], [], "", []⟩

/-- Archiving into a directory of two archives, keeping two, keeps the new
archive and the newer of the two. -/
theorem archive_keeps_two_newest :
    ∃ w', Act.run (Deploy.archive keepTwo) twoArchived = (.ok (), w') ∧
      ∃ kept, Newest 2 ((twoArchived.files.namesIn "/srv/archive" suffix).insert
          ("20240601T120000" ++ suffix)) kept ∧ Retains w' "/srv/archive" kept :=
  (@archive_keeps_newest keepTwo twoArchived 2 rfl (by decide +kernel) ⟨by decide +kernel, by decide +kernel⟩
    (by decide +kernel)).1 "2024-06-01T12:00:00" [] "20240601T120000" (by decide) rfl rfl
    (fun kind => by cases kind <;> decide +kernel)

end Archive
end Firewall
