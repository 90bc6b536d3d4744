import Firewall.Cli.Parse
import Firewall.Host.World

/-!
# The firewall's command line

The command line has general options (where the configuration comes from,
how much is logged, the version, making a configuration directory) and two
commands:

- `apply` brings a ruleset onto the host: the generated one, an empty one
  (`--clear`), the saved one (`--restore`) or an archived one
  (`--archive`).  It then shows the changes, runs the check commands, asks
  for confirmation and saves and archives the result; options turn each of
  these off.
- `show` shows the archive (or the changes an archived ruleset would make),
  the configuration, or the running rulesets.

What a command line asks for is an `Invocation`: a request and the general
settings.  The version is asked first, then a configuration directory, then
a command; without a command, the help of the program (or of `show`) is
shown.
-/

namespace Firewall
namespace Cli

/-- The version the program reports. -/
def version : String := "0.18.1"

/-- The configuration directory made when none is named. -/
def defaultConfigDir : String := "/etc/fwgen"

/-- The names of the log levels, most severe first. -/
def levelNames : List String := ["critical", "error", "warning", "info", "debug"]

/-- The names of the running rulesets `show running` can list. -/
def selections : List String := ["iptables", "fw4", "ip6tables", "fw6", "fw", "ipsets", "all"]

/-- The help option every command has. -/
def helpOption : Opt :=
  { flags := ["-h", "--help"], dest := "help", effect := .help,
    help := "show this help message and exit" }

/-- A switch, off unless given, in a group or none. -/
def switchIn (group : Option Nat) (flag dest help : String) : Opt :=
  { flags := [flag], dest := dest, effect := .switch, help := help, default := .bool false,
    group := group }

/-- A switch outside every group. -/
def switch (flag dest help : String) : Opt := switchIn none flag dest help

/-- The program itself: the general options and the choice of a command. -/
def programCommand (defaultsPath : String) : Command where
  path := []
  options := [
    helpOption,
    { flags := ["--create-config-dir"], dest := "create_config_dir", effect := .store .optional,
      metavar := some "PATH", default := .bool false, const := .text defaultConfigDir,
      help := "Create initial config dir" },
    { flags := ["--config"], dest := "config", effect := .store .one, metavar := some "PATH",
      default := .text "/etc/fwgen/config.yml", help := "Override path to config file" },
    { flags := ["--defaults"], dest := "defaults", effect := .store .one, metavar := some "PATH",
      default := .text defaultsPath, help := "Override path to defaults file" },
    { flags := ["--config-json"], dest := "config_json", effect := .store .one,
      metavar := some "JSON", help := "JSON formatted config" },
    switch "--version" "version" "Show version",
    { flags := ["--log-level"], dest := "log_level", effect := .store .one, choices := levelNames,
      default := .text "info", help := "Set log level for console output" }]
  positional := some (.commands (some "subcommand") "subcommands"
    [("apply", "apply firewall settings"), ("show", "show configuration")])
  action := none

/-- The `apply` command. -/
def applyCommand : Command where
  path := ["apply"]
  options := [
    helpOption,
    switch "--no-diff" "no_diff" "Do not show diff on changes",
    switch "--no-archive" "no_archive" "Do not archive the saved ruleset",
    switch "--no-save" "no_save"
      "Apply the ruleset but do not make it persistent. This also includes archiving.",
    switchIn (some 0) "--clear" "clear" "Clear the ruleset",
    switchIn (some 0) "--restore" "restore" "Restore saved ruleset",
    { flags := ["--archive"], dest := "archive", effect := .store .one, metavar := some "ARCHIVE",
      help := "Restore archived ruleset", group := some 0 },
    { flags := ["--timeout"], dest := "timeout", effect := .store .one, metavar := some "SECONDS",
      kind := .integer, default := .int 20, help := "Override timeout for rollback",
      group := some 1 },
    switchIn (some 1) "--no-confirm" "no_confirm" "Don't ask for confirmation before storing ruleset"]
  positional := none
  action := some "apply"

/-- The `show` command, which only chooses what to show. -/
def showCommand : Command where
  path := ["show"]
  options := [helpOption]
  positional := some (.commands none "subcommands"
    [("archive", "show archive"), ("config", "show fwgen configuration"),
     ("running", "show running configuration")])
  action := none

/-- `show archive`. -/
def showArchiveCommand : Command where
  path := ["show", "archive"]
  options := [helpOption]
  positional := some (.word "diff" (some "INDEX|NAME") []
    "Show differences between running and archived ruleset")
  action := some "archive"

/-- `show config`. -/
def showConfigCommand : Command where
  path := ["show", "config"]
  options := [helpOption]
  positional := none
  action := some "config"

/-- `show running`. -/
def showRunningCommand : Command where
  path := ["show", "running"]
  options := [helpOption]
  positional := some (.word "select" none selections "Show specific configuration")
  action := some "running"

/-- The firewall's command-line grammar, with the defaults file it reads
when none is named. -/
def commandLine (defaultsPath : String) : Grammar :=
  ⟨"fwgen", [programCommand defaultsPath, applyCommand, showCommand, showArchiveCommand,
    showConfigCommand, showRunningCommand]⟩

/-- How `apply` changes the rulesets. -/
inductive Change where
  | generate
  | clear
  | restore
  | restoreArchived (key : String)
deriving Repr, DecidableEq, Inhabited

/-- What `apply` does besides the change: show the changes, ask for
confirmation (waiting so many seconds), save, archive. -/
structure ApplyPlan where
  change : Change
  showDiff : Bool
  confirmWithin : Option Int
  save : Bool
  archive : Bool
deriving Repr, DecidableEq, Inhabited

/-- A command that works on a configuration. -/
inductive Task where
  | apply (plan : ApplyPlan)
  | showArchive (key : Option String)
  | showConfig
  | showRunning (selection : String)
deriving Repr, DecidableEq, Inhabited

/-- What a command line asks for. -/
inductive Request where
  | version
  | createConfigDir (path : String)
  | help (path : List String)
  | task (t : Task)
deriving Repr, DecidableEq, Inhabited

/-- A request with the general settings. -/
structure Invocation where
  request : Request
  configPath : String
  defaultsPath : String
  configJson : Option String
  level : Level
deriving Repr, Inhabited

/-- The log level a name denotes; names other than the five mean `info`. -/
def Level.ofName : String → Level
  | "critical" => .critical
  | "error" => .error
  | "warning" => .warning
  | "debug" => .debug
  | _ => .info

namespace ArgValue

/-- Whether a value is a true switch. -/
def isOn : ArgValue → Bool
  | .bool b => b
  | _ => false

/-- The text of a value, if it has one. -/
def text? : ArgValue → Option String
  | .text s => some s
  | _ => none

end ArgValue

/-- The task a namespace asks for, by the action its command set. -/
def taskOf (ns : Namespace) : Option Task :=
  match ns.get "action" with
  | .text "apply" =>
    let change :=
      if (ns.get "clear").isOn then Change.clear
      else if (ns.get "restore").isOn then .restore
      else match (ns.get "archive").text?.filter (!·.isEmpty) with
        | some key => .restoreArchived key
        | none => .generate
    let confirm := if (ns.get "no_confirm").isOn then none
      else some (match ns.get "timeout" with | .int n => n | _ => 20)
    some (.apply ⟨change, !(ns.get "no_diff").isOn, confirm, !(ns.get "no_save").isOn,
      !(ns.get "no_archive").isOn⟩)
  | .text "archive" =>
    some (.showArchive ((ns.get "diff").text?.filter (!·.isEmpty)))
  | .text "config" => some .showConfig
  | .text "running" =>
    some (.showRunning (((ns.get "select").text?.filter (!·.isEmpty)).getD "all"))
  | _ => none

/-- What a command line's namespace asks for. -/
def Invocation.ofNamespace (ns : Namespace) : Invocation :=
  let request :=
    if (ns.get "version").isOn then Request.version
    else match ns.get "create_config_dir" with
      | .text p => .createConfigDir p
      | _ =>
        match taskOf ns with
        | some t => .task t
        | none => .help (if ns.get "subcommand" == .text "show" then ["show"] else [])
  { request := request,
    configPath := ((ns.get "config").text?).getD "/etc/fwgen/config.yml",
    defaultsPath := ((ns.get "defaults").text?).getD "",
    configJson := (ns.get "config_json").text?,
    level := Level.ofName (((ns.get "log_level").text?).getD "info") }

end Cli
end Firewall
