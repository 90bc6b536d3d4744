import Firewall.Host.World

/-!
# Configuration directories

Making a configuration directory makes the directory and its parents (a
directory that exists, or a file in its place, is left as it is; a path that
runs through a file fails), then gives it a `config.yml` copied from the
example configuration unless it has one, and restricts its permissions.
Every step is logged, with the paths as given, relative to the working
directory.
-/

namespace Firewall
namespace ConfigDir

/-- The name of the configuration file in a configuration directory. -/
def fileName : String := "config.yml"

/-- Make a directory and its parents, unless a file or directory is there
already. -/
def makeDir (shown real : String) : Act Unit := do
  let fs := (← get).files
  if fs.isFile real then pure ()
  else if (fs.fileAbove real).isSome then throw (.notADirectory shown)
  else Act.editFiles (·.makeDirs real)

/-- Write a new file, which fails where a directory is, or where the path
runs through a file. -/
def writeNew (shown real : String) (text : String) : Act Unit := do
  let fs := (← get).files
  if fs.isDir real then throw (.isADirectory shown)
  else if (fs.fileAbove real).isSome then throw (.notADirectory shown)
  else Act.editFiles (·.write real (.text text))

/-- Make a configuration directory, seen from a working directory, with the
example configuration in it. -/
def create (cwd dir sample : String) : Act Unit := do
  let shown := Path.normalize dir
  let real := Path.resolve cwd dir
  Act.log .info ("Ensuring '" ++ shown ++ "' exists...")
  makeDir shown real
  let config := Path.join shown fileName
  let realConfig := Path.join real fileName
  if !(← get).files.isFile realConfig then
    Act.log .info ("Config file does not exist. Adding empty example config.\n" ++
      "Please edit '" ++ config ++ "' before you run fwgen.")
    writeNew config realConfig sample
  Act.log .info ("Setting permissions on '" ++ config ++ "'")

end ConfigDir
end Firewall
