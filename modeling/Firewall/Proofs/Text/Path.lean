import Firewall.Text.Path

/-!
# Paths in normal form

A path is read as a root and parts (`Path.root`, `Path.parts`) and written
back by `Path.build`.  Reading a built path gives back its root and parts
(`root_build`, `parts_build`), for a root that is one of the three
(`IsRoot`) and parts that are plain (`Plain`: not empty, not `.`, no slash).
On paths in normal form (`Normal`), which are exactly the built ones:

- joining a plain name appends it as the last part (`join_build`), and the
  directory part and the name of the joined path are the directory and the
  name (`parent_join`, `fileName_join`);
- a path is the join of its directory part and its name
  (`join_parent_fileName`), so within one directory a path is determined by
  its name.
-/

namespace Firewall
namespace Path

/-- A part of a path: not empty, not `.`, and without a slash. -/
def Plain (s : String) : Prop := s ≠ "" ∧ s ≠ "." ∧ '/' ∉ s.toList

/-- One of the three roots: relative, `/` or `//`. -/
def IsRoot (r : String) : Prop := r = "" ∨ r = "/" ∨ r = "//"

/-- A path in normal form. -/
def Normal (p : String) : Prop := normalize p = p

instance (p : String) : Decidable (Normal p) := inferInstanceAs (Decidable (_ = _))

theorem isRoot_root (p : String) : IsRoot (root p) := by
  unfold root IsRoot
  split
  · simp
  · split <;> simp

section Pieces

/-- No piece that splitting at a separator gives holds the separator. -/
theorem not_mem_of_mem_splitOn {xs l : List Char} {c : Char} (h : l ∈ xs.splitOn c) : c ∉ l := by
  induction xs generalizing l with
  | nil => simp_all
  | cons x xs ih =>
    rw [List.splitOn_cons_eq_if_modifyHead] at h
    split at h
    · rcases List.mem_cons.mp h with rfl | h
      · simp
      · exact ih h
    · rename_i hx
      obtain ⟨hd, tl, htl⟩ := List.exists_cons_of_ne_nil (List.splitOn_ne_nil c xs)
      rw [htl, List.modifyHead_cons] at h
      rcases List.mem_cons.mp h with rfl | h
      · have hhd : c ∉ hd := ih (by rw [htl]; exact List.mem_cons_self)
        simp only [List.mem_cons, not_or]
        exact ⟨fun hcx => hx (by simp [hcx]), hhd⟩
      · exact ih (by rw [htl]; exact List.mem_cons_of_mem _ h)

/-- The parts of any path are plain. -/
theorem plain_of_mem_parts {p s : String} (h : s ∈ parts p) : Plain s := by
  obtain ⟨hmem, hkeep⟩ := List.mem_filter.mp h
  obtain ⟨l, hl, rfl⟩ := List.mem_map.mp hmem
  simp only [Bool.and_eq_true, Bool.not_eq_eq_eq_not, Bool.not_true, String.isEmpty_eq_false_iff,
    bne_iff_ne, ne_eq] at hkeep
  exact ⟨hkeep.1, hkeep.2, by simpa using not_mem_of_mem_splitOn hl⟩

theorem pieces_slash (s : String) : pieces ("/" ++ s) = "" :: pieces s := by
  unfold pieces
  have h : ("/" ++ s).toList = [] ++ '/' :: s.toList := by simp
  rw [h, List.splitOn_append_cons_self]
  simp

/-- Plain parts joined by slashes split back into the parts. -/
theorem pieces_intercalate {qs : List String} (hq : ∀ q ∈ qs, Plain q) :
    pieces ("/".intercalate qs) = if qs = [] then [""] else qs := by
  split
  · rename_i h
    subst h
    rfl
  · rename_i hne
    unfold pieces
    rw [String.toList_intercalate, show "/".toList = ['/'] from rfl,
      List.splitOn_intercalate '/' (by simpa using fun q hm => (hq q hm).2.2) (by simpa using hne)]
    simp

end Pieces

section Build

variable {r : String} {qs : List String}

theorem toList_intercalate_cons (q : String) (qs : List String) :
    ∃ rest, ("/".intercalate (q :: qs)).toList = q.toList ++ rest := by
  cases qs with
  | nil => exact ⟨[], by simp⟩
  | cons q' qs => exact ⟨'/' :: ("/".intercalate (q' :: qs)).toList, by simp⟩

/-- Plain parts joined by slashes do not open with a slash. -/
theorem not_slash_prefix_intercalate (hq : ∀ q ∈ qs, Plain q) :
    ¬ ['/'] <+: ("/".intercalate qs).toList := by
  cases qs with
  | nil => simp
  | cons q qs =>
    obtain ⟨hne, -, hslash⟩ := hq q List.mem_cons_self
    obtain ⟨c, cs, hc⟩ : ∃ c cs, q.toList = c :: cs :=
      List.exists_cons_of_ne_nil (by simpa using hne)
    obtain ⟨rest, hrest⟩ := toList_intercalate_cons q qs
    have hcs : '/' ≠ c := fun h => hslash (by rw [hc, ← h]; exact List.mem_cons_self)
    rw [hrest, hc]
    simpa using hcs

theorem intercalate_eq_empty_iff (hq : ∀ q ∈ qs, Plain q) : "/".intercalate qs = "" ↔ qs = [] := by
  cases qs with
  | nil => simp
  | cons q qs =>
    obtain ⟨rest, h⟩ := toList_intercalate_cons q qs
    have hne : q.toList ≠ [] := by simpa using (hq q List.mem_cons_self).1
    simp only [reduceCtorEq, iff_false]
    intro he
    rw [he] at h
    exact hne (List.append_eq_nil_iff.mp h.symm).1

/-- A built path, when its parts are plain. -/
theorem build_eq (hq : ∀ q ∈ qs, Plain q) :
    build r qs = if r = "" ∧ qs = [] then "." else r ++ "/".intercalate qs := by
  unfold build
  simp only [Bool.and_eq_true, String.isEmpty_iff, intercalate_eq_empty_iff hq]

/-- The root of a text opening with a root and then no slash. -/
theorem root_append (hr : IsRoot r) {s : String} (hs : ¬ ['/'] <+: s.toList) : root (r ++ s) = r := by
  have hs2 : ¬ ['/', '/'] <+: s.toList := fun h => hs (List.IsPrefix.trans ⟨['/'], rfl⟩ h)
  rcases hr with rfl | rfl | rfl <;> simp [root, hs, hs2, List.prefix_cons_iff]

theorem keep_of_plain {s : String} (h : Plain s) : (!s.isEmpty && s != ".") = true := by
  simpa [String.isEmpty_iff] using ⟨h.1, h.2.1⟩

theorem root_build (hr : IsRoot r) (hq : ∀ q ∈ qs, Plain q) : root (build r qs) = r := by
  rw [build_eq hq]
  split
  · rename_i h
    obtain ⟨rfl, rfl⟩ := h
    simp [root]
  · exact root_append hr (not_slash_prefix_intercalate hq)

theorem parts_build (hr : IsRoot r) (hq : ∀ q ∈ qs, Plain q) : parts (build r qs) = qs := by
  have hkeep : qs.filter (fun s => !s.isEmpty && s != ".") = qs :=
    List.filter_eq_self.mpr fun q hm => keep_of_plain (hq q hm)
  rw [build_eq hq]
  split
  · rename_i h
    obtain ⟨rfl, rfl⟩ := h
    rfl
  · rename_i h
    unfold parts
    rcases hr with rfl | rfl | rfl
    · have hne : qs ≠ [] := fun h' => h ⟨rfl, h'⟩
      rw [String.empty_append, pieces_intercalate hq, if_neg hne, hkeep]
    · rw [pieces_slash, pieces_intercalate hq]
      split <;> simp_all
    · rw [show "//" ++ "/".intercalate qs = "/" ++ ("/" ++ "/".intercalate qs) by
          simp [← String.append_assoc], pieces_slash, pieces_slash, pieces_intercalate hq]
      split <;> simp_all

theorem normal_build (hr : IsRoot r) (hq : ∀ q ∈ qs, Plain q) : Normal (build r qs) := by
  unfold Normal normalize
  rw [root_build hr hq, parts_build hr hq]

/-- A path in normal form is built of its root and plain parts. -/
theorem Normal.exists_build {p : String} (hp : Normal p) :
    ∃ r qs, IsRoot r ∧ (∀ q ∈ qs, Plain q) ∧ p = build r qs :=
  ⟨root p, parts p, isRoot_root p, fun _ => plain_of_mem_parts, hp.symm⟩

theorem normal_normalize (p : String) : Normal (normalize p) :=
  normal_build (isRoot_root p) fun _ => plain_of_mem_parts

end Build

section Join

variable {d n : String}

theorem parts_plain (hn : Plain n) : parts n = [n] := by
  have hpieces : pieces n = [n] := by
    unfold pieces
    rw [List.splitOn_eq_singleton hn.2.2]
    simp
  unfold parts
  simp only [hpieces, List.filter_cons, keep_of_plain hn, if_true, List.filter_nil]

theorem not_startsWith_slash (hn : Plain n) : ¬ n.startsWith "/" := by
  have hs : ¬ ['/'] <+: ("/".intercalate [n]).toList :=
    not_slash_prefix_intercalate (by simpa using hn)
  simpa using hs

/-- Joining a plain name to a built path appends it as the last part. -/
theorem join_build {r : String} {qs : List String} (hr : IsRoot r) (hq : ∀ q ∈ qs, Plain q)
    (hn : Plain n) : join (build r qs) n = build r (qs ++ [n]) := by
  unfold join
  rw [if_neg (not_startsWith_slash hn), root_build hr hq, parts_build hr hq, parts_plain hn]

theorem parent_join (hd : Normal d) (hn : Plain n) : parent (join d n) = d := by
  obtain ⟨r, qs, hr, hq, rfl⟩ := hd.exists_build
  have hq' : ∀ q ∈ qs ++ [n], Plain q := by simpa [or_imp, forall_and] using ⟨hq, hn⟩
  unfold parent
  rw [join_build hr hq hn, root_build hr hq', parts_build hr hq', List.dropLast_concat]

theorem fileName_join (hd : Normal d) (hn : Plain n) : fileName (join d n) = n := by
  obtain ⟨r, qs, hr, hq, rfl⟩ := hd.exists_build
  have hq' : ∀ q ∈ qs ++ [n], Plain q := by simpa [or_imp, forall_and] using ⟨hq, hn⟩
  unfold fileName
  rw [join_build hr hq hn, parts_build hr hq']
  simp

theorem normal_join (hd : Normal d) (hn : Plain n) : Normal (join d n) := by
  obtain ⟨r, qs, hr, hq, rfl⟩ := hd.exists_build
  rw [join_build hr hq hn]
  exact normal_build hr (by simpa [or_imp, forall_and] using ⟨hq, hn⟩)

/-- A path in normal form with a name is its directory part joined with its name. -/
theorem join_parent_fileName {p : String} (hp : Normal p) (hn : fileName p ≠ "") :
    join (parent p) (fileName p) = p := by
  obtain ⟨r, qs, hr, hq, rfl⟩ := hp.exists_build
  unfold fileName at hn ⊢
  unfold parent
  rw [root_build hr hq, parts_build hr hq] at *
  have hne : qs ≠ [] := by
    rintro rfl
    simp at hn
  have hlast : Plain (qs.getLast hne) := hq _ (List.getLast_mem hne)
  rw [List.getLast?_eq_some_getLast hne, Option.getD_some,
    join_build hr (fun q hm => hq q (List.dropLast_subset qs hm)) hlast, List.dropLast_concat_getLast hne]

theorem intercalate_concat_append (qs : List String) (n s : String) :
    "/".intercalate (qs ++ [n]) ++ s = "/".intercalate (qs ++ [n ++ s]) := by
  cases qs with
  | nil => simp
  | cons q qs =>
    rw [String.intercalate_append_of_ne_nil (by simp) (by simp),
      String.intercalate_append_of_ne_nil (by simp) (by simp)]
    simp [String.append_assoc]

/-- A plain name with a suffix without a slash is plain. -/
theorem Plain.append (hn : Plain n) {s : String} (hs : '/' ∉ s.toList) : Plain (n ++ s) := by
  refine ⟨fun h => hn.1 (String.append_eq_empty_iff.mp h).1, fun h => ?_, by simpa using ⟨hn.2.2, hs⟩⟩
  have hl := congrArg String.toList h
  rw [String.toList_append, show ".".toList = ['.'] from rfl] at hl
  rcases List.append_eq_singleton_iff.mp hl with ⟨hn0, -⟩ | ⟨hn1, -⟩
  · exact hn.1 (String.toList_inj.mp (hn0.trans rfl))
  · exact hn.2.1 (String.toList_inj.mp (hn1.trans rfl))

/-- A suffix without a slash on a joined path stays on its name. -/
theorem join_append (hd : Normal d) (hn : Plain n) {s : String} (hs : '/' ∉ s.toList) :
    join d n ++ s = join d (n ++ s) := by
  obtain ⟨r, qs, hr, hq, rfl⟩ := hd.exists_build
  have hqn : ∀ q ∈ qs ++ [n], Plain q := by simpa [or_imp, forall_and] using ⟨hq, hn⟩
  have hqns : ∀ q ∈ qs ++ [n ++ s], Plain q := by
    simpa [or_imp, forall_and] using ⟨hq, hn.append hs⟩
  rw [join_build hr hq hn, join_build hr hq (hn.append hs), build_eq hqn, build_eq hqns]
  simp [String.append_assoc, intercalate_concat_append]

end Join

end Path
end Firewall
