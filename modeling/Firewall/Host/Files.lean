import Firewall.Text.Path
import Firewall.Fault

/-!
# Files

The files the firewall reads and writes: restore files, archives and
configuration files.  A file system is a list of files by path, in the order
they were created, and the directories made so far.  A file holds text, or is
an archive of the three saved rulesets.

Reading a text file as lines follows universal newlines: a carriage return,
alone or before a line feed, reads as a line feed, and every line keeps its
line feed.
-/

namespace Firewall

/-- What a file holds. -/
inductive Content where
  | text (s : String)
  | archive (iptables ip6tables ipsets : String)
deriving Repr, DecidableEq, Inhabited

/-- Files by path, in creation order, and the directories made. -/
structure Files where
  files : List (String × Content)
  dirs : List String
deriving Repr, Inhabited

namespace Files

/-- A file system without files. -/
def empty : Files := ⟨[], []⟩

/-- The file at a path. -/
def find? (fs : Files) (p : String) : Option Content :=
  (fs.files.find? (·.1 == p)).map (·.2)

/-- Whether a file exists at the path. -/
def isFile (fs : Files) (p : String) : Bool := fs.files.any (·.1 == p)

/-- Write a file: a new path goes last, an existing file is replaced in place. -/
def write (fs : Files) (p : String) (c : Content) : Files :=
  if fs.isFile p then { fs with files := fs.files.map fun e => if e.1 == p then (p, c) else e }
  else { fs with files := fs.files ++ [(p, c)] }

/-- Remove the file at a path. -/
def remove (fs : Files) (p : String) : Files :=
  { fs with files := fs.files.filter (·.1 != p) }

/-- Move a file to a new path, replacing what is there. -/
def rename (fs : Files) (src dst : String) : Files :=
  match fs.find? src with
  | some c => (fs.remove src).write dst c
  | none => fs

/-- Whether a directory exists at a path: one was made there or below it,
or a file lies below it. -/
def isDir (fs : Files) (p : String) : Bool :=
  fs.dirs.any (fun d => d == p || d.startsWith (p ++ "/")) ||
    fs.files.any fun e => e.1.startsWith (p ++ "/")

/-- Open a file for writing: its directory must exist, as a made directory
or one that holds files. -/
def create (fs : Files) (p : String) (c : Content) : Except Fault Files :=
  if fs.isDir (Path.parent p) then .ok (fs.write p c) else .error (.noSuchFile p)

/-- A plain file that a path runs through, if any. -/
def fileAbove (fs : Files) (p : String) : Option String :=
  (fs.files.find? fun e => p.startsWith (e.1 ++ "/")).map (·.1)

/-- The paths of the files below a root and in one of the given top
directories, relative to the root and sorted. -/
def listing (fs : Files) (root : String) (tops : List String) : List String :=
  let rel := fs.files.filterMap fun e =>
    if e.1.startsWith (root ++ "/") then some (String.ofList (e.1.toList.drop (root.length + 1))) else none
  (rel.filter fun p => tops.any fun t => p.startsWith (t ++ "/")).mergeSort Text.codeOrder

/-- Make a directory and its parents. -/
def makeDirs (fs : Files) (p : String) : Files :=
  if fs.dirs.contains p then fs else { fs with dirs := fs.dirs ++ [p] }

/-- The text of a file, which must exist. -/
def readText (fs : Files) (p : String) : Except Fault String :=
  match fs.find? p with
  | some (.text s) => .ok s
  | some (.archive _ _ _) => .ok ""
  | none => .error (.noSuchFile p)

/-- The names of the files directly inside a directory that end with the suffix. -/
def namesIn (fs : Files) (dir suffix : String) : List String :=
  (fs.files.filter fun e => Path.parent e.1 == dir && (Path.fileName e.1).endsWith suffix).map
    fun e => Path.fileName e.1

end Files

namespace Text

/-- Lines as universal newlines read them: each carriage return, alone or before
a line feed, becomes a line feed, and each line keeps its line feed. -/
def readLines (s : String) : List String :=
  let rec go (cur : List Char) : List Char → List (List Char)
    | [] => if cur.isEmpty then [] else [cur.reverse]
    | '\r' :: '\n' :: rest => ('\n' :: cur).reverse :: go [] rest
    | '\r' :: rest => ('\n' :: cur).reverse :: go [] rest
    | '\n' :: rest => ('\n' :: cur).reverse :: go [] rest
    | c :: rest => go (c :: cur) rest
  (go [] s.toList).map String.ofList

end Text

/-- Replacing the entries under a key that occurs leaves the new content under it. -/
theorem find?_map_replace (xs : List (String × Content)) (p : String) (c : Content)
    (h : xs.any (·.1 == p) = true) :
    ((xs.map fun e => if e.1 == p then (p, c) else e).find? (·.1 == p)).map (·.2) = some c := by
  induction xs with
  | nil => simp at h
  | cons x xs ih =>
    by_cases hx : x.1 = p
    · simp [hx]
    · have hb : (x.1 == p) = false := by simpa using hx
      simp only [List.any_cons, hb, Bool.false_or] at h
      simp only [List.map_cons, hb, Bool.false_eq_true, if_false, List.find?_cons]
      exact ih h

@[simp] theorem Files.find?_write_self (fs : Files) (p : String) (c : Content) :
    (fs.write p c).find? p = some c := by
  unfold Files.write Files.find?
  split
  · rename_i h
    exact find?_map_replace _ _ _ h
  · rename_i h
    simp only [Files.isFile, List.any_eq_true, not_exists, not_and] at h
    rw [List.find?_append]
    have : List.find? (fun e => e.1 == p) fs.files = none := by
      rw [List.find?_eq_none]
      intro x hx
      simpa using h x hx
    simp [this]

end Firewall
