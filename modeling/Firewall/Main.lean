import Firewall.Cli.Run
import Firewall.Json.Writer

/-!
# The command-line program

Runs the command line once on the real file system: the configuration files
it names are read from disk (the shipped defaults stand in for a missing
defaults file), the run is done on the model of the host, its output and log
are written to the two streams, and the text files it wrote are written to
disk.  No update is ever confirmed, so an `apply` that asks for confirmation
rolls back.
-/

open Firewall

/-- Where the shipped defaults are read from unless `--defaults` names another file. -/
def shippedDefaultsPath : String := "/usr/share/firewall/defaults.yml"

/-- The text of a file on disk, if it can be read. -/
def readDisk (p : String) : IO (Option String) := do
  try
    let t ← IO.FS.readFile p
    pure (some t)
  catch _ =>
    pure none

/-- Write a text file to disk, making its directory first. -/
def writeDisk (p text : String) : IO Unit := do
  IO.FS.createDirAll (Path.parent p)
  IO.FS.writeFile p text

def main (args : List String) : IO UInt32 := do
  let cwd := (← IO.currentDir).toString
  let setting : Cli.Setting := ⟨cwd, shippedDefaultsPath, "", false⟩
  let mut files : List (String × Content) := []
  for p in Cli.sources setting args do
    match ← readDisk p with
    | some t => files := files ++ [(p, .text t)]
    | none =>
      if p == shippedDefaultsPath then
        files := files ++ [(p, .text ((Json.render Json.Style.listing Config.shipped).toOption.getD ""))]
  let world : World := ⟨.programs, ⟨files, []⟩, Ipset.Words.ofList [], [], [], "", []⟩
  let (outcome, after) := Cli.run setting args world
  IO.print outcome.stdout
  IO.eprint outcome.stderr
  for (p, c) in after.files.files do
    match c with
    | .text t => if !files.contains (p, c) then writeDisk p t
    | .archive .. => pure ()
  pure outcome.exit.toUInt32
