import Firewall.Host.Files
import Firewall.Host.Kernel
import Firewall.Ipset.Swap
import Firewall.Config.Basic
import Firewall.Value.Text

/-!
# The world the firewall acts on

The firewall loads, lists and saves its rulesets through commands of the host.
Two hosts are modelled:

- an in-memory kernel, which records every script it is given;
- the configured programs, each of which is `true` (succeeds, prints nothing),
  `false` (fails with status 1) or null (not run).

Besides the host, the world holds the files, the supply of temporary set
names, the clock readings still to come, what was printed, and the log.

Actions on the world keep every change they made before a fault: a script
recorded, a temporary file created, a name drawn.
-/

namespace Firewall

/-- The severity of a log record. -/
inductive Level where
  | debug
  | info
  | warning
  | error
  | critical
deriving Repr, DecidableEq, Inhabited

/-- The rank of a severity, higher for more severe records. -/
def Level.rank : Level → Nat
  | .debug => 10
  | .info => 20
  | .warning => 30
  | .error => 40
  | .critical => 50

/-- Where rulesets are loaded. -/
inductive Host where
  | memory (k : Kernel)
  | programs
deriving Repr, Inhabited

/-- The state that actions change. -/
structure World where
  host : Host
  files : Files
  words : Ipset.Words
  clock : List String
  calls : List (String × List String)
  printed : String
  logs : List (Level × String)
deriving Repr, Inhabited

/-- An action on the world that may fail; the world keeps what the action did
before it failed. -/
abbrev Act := ExceptT Fault (StateM World)

namespace Act

/-- Fail unless the outcome is a success. -/
def lift {α : Type} (r : Except Fault α) : Act α :=
  match r with
  | .ok a => pure a
  | .error f => throw f

/-- Add a log record. -/
def log (level : Level) (msg : String) : Act Unit :=
  modify fun w => { w with logs := w.logs ++ [(level, msg)] }

/-- Print a text. -/
def print (s : String) : Act Unit :=
  modify fun w => { w with printed := w.printed ++ s }

/-- Change the files. -/
def editFiles (f : Files → Files) : Act Unit :=
  modify fun w => { w with files := f w.files }

/-- Open a file for writing, in a directory that exists. -/
def createFile (p : String) (c : Content) : Act Unit := do
  let fs ← lift ((← get).files.create p c)
  modify fun w => { w with files := fs }

/-- The text of a file. -/
def readText (p : String) : Act String := do
  lift ((← get).files.readText p)

/-- Run an action on a world, giving its outcome and the world after it. -/
def run {α : Type} (a : Act α) (w : World) : Except Fault α × World :=
  (ExceptT.run a).run w

end Act

namespace Ruleset.Kind

/-- The command that lists a ruleset. -/
def saveCommand (c : Commands) : Ruleset.Kind → List Value
  | .iptables => [c.iptablesSave]
  | .ip6tables => [c.ip6tablesSave]
  | .ipsets => [c.ipset, .str "save"]

/-- The command that loads a ruleset. -/
def restoreCommand (c : Commands) : Ruleset.Kind → List Value
  | .iptables => [c.iptablesRestore]
  | .ip6tables => [c.ip6tablesRestore]
  | .ipsets => [c.ipset, .str "restore"]

end Ruleset.Kind

namespace Program

/-- The words of a command, which must all be texts. -/
def words (argv : List Value) : Except Fault (List String) :=
  go 0 argv
where
  go (i : Nat) : List Value → Except Fault (List String)
    | [] => .ok []
    | .str s :: rest => do pure (s :: (← go (i + 1) rest))
    | v :: _ => .error (.joinItem i v.typeName)

/-- Whether a command is the one that is never run. -/
def isNone (argv : List Value) : Bool := argv == [.null]

/-- The exit status of a program: `false` fails, every other succeeds. -/
def status (argv : List String) : Nat :=
  if argv.head? == some "false" then 1 else 0

/-- Run a command and take its output, which the modelled programs leave empty. -/
def output (argv : List Value) : Act String := do
  let ws ← Act.lift (words argv)
  Act.log .debug ("Running command: '" ++ " ".intercalate ws ++ "'")
  if status ws != 0 then throw (.commandFailed ws (status ws))
  pure ""

end Program

namespace Host

/-- Give a script to the in-memory kernel, or to the restore program. -/
def load (c : Commands) (kind : Ruleset.Kind) (lines : List String) : Act Unit := do
  match (← get).host with
  | .memory k =>
    modify fun w => { w with calls := w.calls ++ [(kind.name, lines)] }
    match k.load kind lines with
    | .ok k' => modify fun w => { w with host := .memory k' }
    | .error f =>
      modify fun w => { w with host := .memory (k.afterRefusal kind) }
      throw f
  | .programs =>
    let argv := kind.restoreCommand c
    if Program.isNone argv then pure ()
    else
      match argv.find? (fun v => !(v matches .str _)) with
      | some v => throw (.notPath v.typeName)
      | none =>
        let ws := argv.map Value.text
        if Program.status ws != 0 then throw (.rulesetFailed "")

/-- The lines a ruleset is listed in. -/
def running (c : Commands) (kind : Ruleset.Kind) : Act (List String) := do
  match (← get).host with
  | .memory k => pure (k.running kind)
  | .programs =>
    let argv := kind.saveCommand c
    if Program.isNone argv then pure []
    else do
      let out ← Program.output argv
      pure (Text.lines out)

/-- The names of the sets the host has. -/
def setNames (c : Commands) : Act (List String) := do
  match (← get).host with
  | .memory k => pure k.setNames
  | .programs => do
    let out ← Program.output [c.ipset, .str "list", .str "-name"]
    pure (Text.lines out)

/-- Save a ruleset to a file, through a temporary file beside it. -/
def save (c : Commands) (kind : Ruleset.Kind) (path : String) : Act Unit := do
  let argv := kind.saveCommand c
  if Program.isNone argv then pure ()
  else
    let dir := Path.parent path
    Act.editFiles (·.makeDirs dir)
    let tmp := Path.join dir (Path.fileName path ++ ".tmp")
    let ws ← Act.lift (Program.words argv)
    Act.log .debug ("Running command '" ++ " ".intercalate ws ++ " > " ++ tmp ++ "'")
    if !(← get).files.isFile tmp then Act.editFiles (·.write tmp (.text ""))
    let text ← match (← get).host with
      | .memory k => pure (String.join ((k.running kind).map (· ++ "\n")))
      | .programs =>
        if Program.status ws != 0 then throw (.commandFailed ws (Program.status ws)) else pure ""
    Act.editFiles (·.write tmp (.text text))
    Act.log .debug ("Renaming '" ++ tmp ++ "' to '" ++ path ++ "'")
    Act.editFiles (·.rename tmp path)

end Host

end Firewall
