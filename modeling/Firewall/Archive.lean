import Firewall.Host.World
import Firewall.Text.Integer
import Firewall.Clock

/-!
# Archives of saved rulesets

The archive directory holds earlier saved rulesets, one archive file each,
named after the time it was made: `YYYYMMDDTHHMMSS.tar.xz` (`Clock.stamp`).
Archives are listed by name, newest (greatest by code points) name first, and
numbered from zero in that order; an archive is found by its number (a text
that denotes an integer) or else by its name.

An archive is written to a temporary file first, which is created before the
restore files are read, and renamed when complete.  Cleaning removes the
temporary files left behind and keeps the given number of archives, the
newest; a negative number is refused.
-/

namespace Firewall
namespace Archive

/-- The end of an archive's name. -/
def suffix : String := ".tar.xz"

/-- The end of a temporary file's name. -/
def tmpSuffix : String := ".tmp"

/-- Names sorted from the greatest down, by code points. -/
def newestFirst (names : List String) : List String :=
  names.mergeSort fun a b => Text.codeOrder b a

/-- The archives of a directory, numbered, newest first. -/
def indexed (dir : String) : Act (List (Nat × String)) := do
  let names := newestFirst ((← get).files.namesIn dir suffix)
  pure (names.zipIdx.map fun (n, i) => (i, n))

/-- The name of an archive made at a clock reading (`Clock.stamp`). -/
def stampName (reading : String) : Except Fault String := do
  pure ((← Clock.stamp reading) ++ suffix)

/-- Whether a configured count is below a bound, comparing as numbers. -/
def below (v : Value) (bound : Int) : Except Fault Bool :=
  match v with
  | .int n => .ok (n < bound)
  | .bool b => .ok ((if b then 1 else 0) < bound)
  | .float bits => .ok (Float.ofBits bits < Float.ofInt bound)
  | _ => .error (.unorderable "<" v.typeName "int")

/-- A configured count used to cut a list. -/
def count (v : Value) : Except Fault Nat :=
  match v with
  | .int n => .ok n.toNat
  | .bool b => .ok (if b then 1 else 0)
  | _ => .error .badSliceIndex

/-- Remove temporary files and all but the `keep` newest archives. -/
def clean (dir : String) (keep : Value) : Act Unit := do
  if ← Act.lift (below keep 0) then throw .negativeKeep
  for tmp in (← get).files.namesIn dir tmpSuffix do
    Act.editFiles (·.remove (Path.join dir tmp))
  let n ← Act.lift (count keep)
  for (_, name) in (← indexed dir).drop n do
    let path := Path.join dir name
    Act.log .debug ("Removing ruleset archive '" ++ path ++ "'")
    Act.editFiles (·.remove path)

/-- Write an archive of the three rulesets, through a temporary file. -/
def write (dir name : String) (iptables ip6tables ipsets : Act String) : Act Unit := do
  let path := Path.join dir name
  let tmp := path ++ tmpSuffix
  Act.log .debug ("Archiving ruleset to '" ++ tmp ++ "'")
  if !(← get).files.isFile tmp then Act.createFile tmp (.text "")
  let a ← iptables
  let b ← ip6tables
  let c ← ipsets
  Act.editFiles (·.write tmp (.archive a b c))
  Act.log .debug ("Renaming '" ++ tmp ++ "' to '" ++ path ++ "'")
  Act.editFiles (·.rename tmp path)

/-- The next clock reading. -/
def nextReading : Act String := do
  match (← get).clock with
  | r :: rest =>
    modify fun w => { w with clock := rest }
    pure r
  | [] => throw .clockExhausted

/-- The index a key names, read as an integer: a text by its digits, an
integer or boolean as itself, a double by its whole part.  A text that does
not read and not-a-number name no index; the archive is then looked up by
its name.  Infinities and keys of other kinds are failures. -/
def keyIndex (key : Value) : Except Fault (Option Int) :=
  match key with
  | .str s => .ok (Text.integer? s)
  | .int n => .ok (some n)
  | .bool b => .ok (some (if b then 1 else 0))
  | .float bits =>
    match Number.truncOfBits bits with
    | some n => .ok (some n)
    | none => if Number.bitsNaN bits then .ok none else .error (.floatToInt false)
  | v => .error (.intArgument v.typeName)

/-- The archive named by a number or else by its name. -/
def find (dir : String) (key : Value) : Act String := do
  let index ← Act.lift (keyIndex key)
  let archives ← indexed dir
  match index with
  | some i =>
    match archives.find? (fun e => (e.1 : Int) == i) with
    | some (_, name) => pure name
    | none => throw (.noArchiveIndex i)
  | none =>
    let named : Option (Nat × String) := match key with
      | .str s => archives.find? (·.2 == s)
      | _ => none
    match named with
    | some (_, name) => pure name
    | none => throw (.noArchiveName key.text)

/-- The three rulesets of an archive, as lines. -/
def extract (dir name : String) : Act (List String × List String × List String) := do
  match (← get).files.find? (Path.join dir name) with
  | some (.archive a b c) => pure (Text.lines a, Text.lines b, Text.lines c)
  | some (.text _) => throw .notAnArchive
  | none => throw (.noSuchFile (Path.join dir name))

theorem stampName_reading :
    stampName "2024-01-01T12:00:01" = .ok "20240101T120001.tar.xz" := by
  rfl

end Archive
end Firewall
