import Firewall.Cli.Commands
import Firewall.Deploy
import Firewall.Host.ConfigDir
import Firewall.Config.Defaults
import Firewall.Yaml.Load
import Firewall.Json.Writer

/-!
# Running the command line

A run reads the command line and does what it asks, in a world whose host
runs the configured programs.  Help and usage failures end the run at once,
with status 0 and 2.  Otherwise the run:

- reports the version, or makes a configuration directory, or shows help
  (status 1) when no command is given;
- or assembles the configuration (the defaults file, the configuration file,
  then the JSON text, each laid over the one before) and does the command.

A fault of the command is logged as an error and gives status 1; so does an
update that was not confirmed in time, which logs nothing more.  The log is
written to the error stream, one line per record at or above the chosen
level; what the commands print goes to the output stream.

`apply` is guarded: should any step fail, the rulesets that ran before are
loaded again.  It logs each step: the change, the changes it made (unless
turned off), the check commands, the confirmation, and saving and archiving.
-/

namespace Firewall
namespace Cli

/-- What a run is given besides its words: the working directory, the
defaults file read when none is named, the example configuration that new
configuration directories receive, and whether an update is confirmed. -/
structure Setting where
  cwd : String
  defaultsPath : String
  exampleConfig : String
  confirms : Bool
deriving Repr, Inhabited

/-- What a run leaves: its exit status and what it wrote to the output and
error streams. -/
structure Outcome where
  exit : Nat
  stdout : String
  stderr : String
deriving Repr, DecidableEq, Inhabited

/-- The records of a log at or above a level, a line each. -/
def logText (level : Level) (records : List (Level × String)) : String :=
  String.join ((records.filter fun r => r.1.rank ≥ level.rank).map fun r => r.2 ++ "\n")

/-- A text padded with blanks on the right to a width. -/
def padRight (s : String) (n : Nat) : String := s ++ String.ofList (List.replicate (n - s.length) ' ')

/-- The document of a YAML file named as given, if the file exists. -/
def loadFile (s : Setting) (p : String) : Act (Option Doc) := do
  match (← get).files.find? (Path.resolve s.cwd p) with
  | some (.text t) => some <$> Act.lift (Yaml.loadDoc (Yaml.Document.ofFile p t))
  | some (.archive ..) => some <$> Act.lift (Yaml.loadDoc (Yaml.Document.ofFile p ""))
  | none => pure none

/-- The configuration of an invocation: the defaults file, the configuration
file (whose absence only the JSON text excuses) and the JSON text. -/
def configuration (s : Setting) (inv : Invocation) : Act Doc := do
  Act.log .debug ("Loading defaults file '" ++ inv.defaultsPath ++ "'")
  let defaults ← match ← loadFile s inv.defaultsPath with
    | some v => pure v
    | none => throw (.noSuchFile inv.defaultsPath)
  Act.log .debug ("Loading config file '" ++ inv.configPath ++ "'")
  let file ← loadFile s inv.configPath
  if file.isNone && inv.configJson.isSome then
    Act.log .warning ("Config file '" ++ inv.configPath ++ "' not found. All non-default " ++
      "settings must be fed via '--config-json'")
  Act.lift (Config.layer (.ok defaults) (file.map .ok) inv.configPath inv.configJson)

/-- Print a listing of running rulesets: a header, then the lines. -/
def printRunning (cfg : Config) (title : String) (kind : Ruleset.Kind) : Act Unit := do
  Act.print ("#\n#\n# " ++ title ++ "\n#\n")
  let lines ← Host.running cfg.commands kind
  Act.print ("\n".intercalate lines ++ "\n")

/-- `show running`: the ip sets, the IPv4 and the IPv6 rules, as selected. -/
def showRunning (cfg : Config) (selection : String) : Act Unit := do
  if ["ipsets", "all"].contains selection then printRunning cfg "IPSETS" .ipsets
  if ["iptables", "fw", "fw4", "all"].contains selection then printRunning cfg "IPTABLES" .iptables
  if ["ip6tables", "fw", "fw6", "all"].contains selection then printRunning cfg "IP6TABLES" .ip6tables

/-- `show archive`: the changes an archive would make, if one is named, else
the archives by number. -/
def showArchive (cfg : Config) (key : Option String) : Act Unit := do
  match key with
  | some k =>
    let d ← Deploy.diffArchive cfg (.str k)
    if !d.isEmpty then Act.print (d ++ "\n")
  | none =>
    let archives ← Archive.indexed cfg.archiveDir
    let width := max (toString archives.length).length 5
    Act.print (padRight "INDEX" width ++ "\tNAME\n")
    for (i, name) in archives do
      Act.print (padRight (toString i) width ++ "\t" ++ name ++ "\n")

/-- The change an `apply` makes, logged. -/
def change (cfg : Config) : Change → Act Unit
  | .clear => do
    Act.log .warning "Clearing the firewall..."
    Deploy.clear cfg
    Act.log .warning "Firewall cleared!"
  | .restore => do
    Deploy.restore cfg
    Act.log .info "Ruleset restored!"
  | .restoreArchived key => Deploy.restoreArchived cfg (.str key)
  | .generate => do
    Act.log .info "Applying ruleset..."
    Deploy.apply cfg
    Act.log .info "Ruleset applied!"

/-- Ask for confirmation and wait for it. -/
def confirm (s : Setting) (seconds : Int) : Act Unit := do
  Act.log .warning ("Rolling back in " ++ toString seconds ++ " seconds unless confirmed. " ++
    "Verify that you can establish NEW connections!")
  Act.print "\n>>> Press 'Enter' to confirm or 'Ctrl-C' to rollback immediately\n"
  if !s.confirms then throw .unconfirmed

/-- `apply`, guarded by a rollback. -/
def applyPlan (s : Setting) (cfg : Config) (plan : ApplyPlan) : Act Unit :=
  Deploy.guarded cfg fun snap => do
    change cfg plan.change
    if plan.showDiff then
      let d ← Deploy.diffText cfg (some snap) false
      if !d.isEmpty then Act.log .info d
    Act.log .info "Running check commands..."
    Deploy.check cfg
    Act.log .info "Check commands OK!"
    if let some seconds := plan.confirmWithin then confirm s seconds
    if plan.save then
      Act.log .info "Saving ruleset..."
      Deploy.save cfg
      if plan.archive then Deploy.archive cfg
      Act.log .info "Ruleset saved!"
    else
      Act.log .warning "Saving is disabled. The ruleset will not be persistent!"

/-- Do a task on the configuration. -/
def task (s : Setting) (config : Doc) (shown : String) : Task → Act Unit
  | .showConfig => Act.print (shown ++ "\n")
  | .showRunning selection => do showRunning (← Act.lift (Config.ofDoc config)) selection
  | .showArchive key => do showArchive (← Act.lift (Config.ofDoc config)) key
  | .apply plan => do applyPlan s (← Act.lift (Config.ofDoc config)) plan

/-- Do what an invocation asks, giving the exit status. -/
def perform (s : Setting) (g : Grammar) (inv : Invocation) : Act Nat := do
  match inv.request with
  | .version =>
    Act.print (g.prog ++ " v" ++ version ++ "\n")
    pure 0
  | .createConfigDir p =>
    ConfigDir.create s.cwd p s.exampleConfig
    pure 0
  | .help path =>
    if let some c := g.find? path then Act.print (Help.text g c)
    pure 1
  | .task t =>
    let config ← configuration s inv
    let shown ← Act.lift (Json.render Json.Style.listing config.read)
    Act.log .debug ("Resulting config: " ++ shown)
    task s config shown t
    pure 0

/-- Do what an invocation asks; a fault is logged and gives status 1. -/
def attempt (s : Setting) (g : Grammar) (inv : Invocation) : Act Nat :=
  tryCatch (perform s g inv) fun f =>
    match f with
    | .unconfirmed => pure 1
    | _ => do
      Act.log .error f.report
      pure 1

/-- The files a command line reads its configuration from: the defaults
file and the configuration file, seen from the working directory. -/
def sources (s : Setting) (args : List String) : List String :=
  match (commandLine s.defaultsPath).parse args with
  | .ok ns =>
    let inv := Invocation.ofNamespace ns
    [Path.resolve s.cwd inv.defaultsPath, Path.resolve s.cwd inv.configPath]
  | .error _ => []

/-- Run a command line in a world. -/
def run (s : Setting) (args : List String) (w : World) : Outcome × World :=
  let g := commandLine s.defaultsPath
  match g.parse args with
  | .error stop =>
    let (out, err, code) := stop.render g
    (⟨code, out, err⟩, w)
  | .ok ns =>
    let inv := Invocation.ofNamespace ns
    let (r, w') := (attempt s g inv).run { w with printed := "", logs := [] }
    let code := match r with
      | .ok c => c
      | .error _ => 1
    (⟨code, w'.printed, logText inv.level w'.logs⟩, w')

end Cli
end Firewall
