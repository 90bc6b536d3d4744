import Firewall.Archive
import Firewall.Restore.Script
import Firewall.Ipset.Script
import Firewall.Ruleset.Compare
import Firewall.Text.Shell

/-!
# Deploying rulesets

The operations that bring a configuration onto the host:

- *apply*: generate the restore script and the ipset script and load them:
  the ip sets first, so that rules can refer to them.  An ipset script the
  host refuses is retried once after clearing everything, since some changes
  to sets cannot be made in place.  The same restore script serves IPv4 and
  IPv6.
- *clear*: load the clearing scripts, packet filters before ip sets, which
  may still be in use until then.
- *restore*: load the saved restore files.
- *save*: save the running rulesets into the restore files.
- *archive*: copy the restore files into a new archive, then clean the archive.
- *snapshot* and *rollback*: remember the running rulesets and load them again;
  a *guarded* action rolls back when it fails.
- *diff*: compare rulesets with the running ones, in normal form.
- *check*: run the configured check commands, each split into shell words.
-/

namespace Firewall
namespace Deploy

open Ruleset

/-- The running rulesets at some moment. -/
structure Snapshot where
  iptables : List String
  ip6tables : List String
  ipsets : List String
deriving Repr, DecidableEq, Inhabited

/-- Load an ipset script, building live sets under temporary names. -/
def loadSets (cfg : Config) (script : List String) : Act Unit := do
  let live ← Host.setNames cfg.commands
  let (out, words) := (Ipset.swapScript live script).run (← get).words
  modify fun w => { w with words := words }
  let lines ← Act.lift out
  Host.load cfg.commands .ipsets lines

/-- Clear all rulesets. -/
def clear (cfg : Config) : Act Unit := do
  Act.log .debug "Clearing iptables rules"
  Host.load cfg.commands .iptables Kind.iptables.clearScript
  Act.log .debug "Clearing ip6tables rules"
  Host.load cfg.commands .ip6tables Kind.ip6tables.clearScript
  Act.log .debug "Clearing ipset rules"
  Host.load cfg.commands .ipsets Kind.ipsets.clearScript

/-- Load three rulesets, the ip sets first, retrying those once after clearing. -/
def loadAll (cfg : Config) (iptables ip6tables ipsets : List String) : Act Unit := do
  tryCatch (loadSets cfg ipsets) fun f =>
    match f with
    | .rulesetFailed msg => do
      Act.log .debug msg
      Act.log .warning ("The changes to the ipset configuration is not compatible with" ++
        " atomic updating. The firewall will be temporary cleared!")
      clear cfg
      loadSets cfg ipsets
    | _ => throw f
  Host.load cfg.commands .iptables iptables
  Host.load cfg.commands .ip6tables ip6tables

/-- Generate the rulesets of the configuration and load them. -/
def apply (cfg : Config) : Act Unit := do
  let script ← Act.lift (Restore.ofConfig cfg.tree)
  Act.log .debug ("\n".intercalate script)
  let listing ← Act.lift (Ipset.listing cfg.tree)
  for f in listing.reports do
    Act.print (f.report ++ "\n")
  loadAll cfg script script listing.lines

/-- The restore file of a ruleset. -/
def restoreFile (cfg : Config) : Kind → String
  | .iptables => cfg.restoreFiles.iptables
  | .ip6tables => cfg.restoreFiles.ip6tables
  | .ipsets => cfg.restoreFiles.ipsets

/-- Load the saved restore files. -/
def restore (cfg : Config) : Act Unit := do
  Act.log .info "Restoring from saved ruleset"
  for kind in [Kind.iptables, Kind.ip6tables] do
    let text ← Act.readText (restoreFile cfg kind)
    Host.load cfg.commands kind (Text.readLines text)
  let text ← Act.readText (restoreFile cfg .ipsets)
  loadSets cfg (Text.readLines text)

/-- Save the running rulesets into the restore files. -/
def save (cfg : Config) : Act Unit := do
  for kind in [Kind.iptables, Kind.ip6tables, Kind.ipsets] do
    Host.save cfg.commands kind (restoreFile cfg kind)

/-- Archive the restore files and clean the archive. -/
def archive (cfg : Config) : Act Unit := do
  let keep ← Act.lift (cfg.tree.path ["archive", "keep"])
  Act.editFiles (·.makeDirs cfg.archiveDir)
  if ← Act.lift (Archive.below keep 1) then
    Archive.clean cfg.archiveDir keep
  else
    let name ← Act.lift (Archive.stampName (← Archive.nextReading))
    Archive.write cfg.archiveDir name (Act.readText (restoreFile cfg .iptables))
      (Act.readText (restoreFile cfg .ip6tables)) (Act.readText (restoreFile cfg .ipsets))
    Archive.clean cfg.archiveDir keep

/-- The running rulesets. -/
def snapshot (cfg : Config) : Act Snapshot := do
  pure ⟨← Host.running cfg.commands .iptables, ← Host.running cfg.commands .ip6tables,
    ← Host.running cfg.commands .ipsets⟩

/-- Load a snapshot again; without one there is nothing to walk through. -/
def rollback (cfg : Config) (snap : Option Snapshot) : Act Unit := do
  match snap with
  | some s => loadAll cfg s.iptables s.ip6tables s.ipsets
  | none =>
    let _ ← Host.setNames cfg.commands
    throw (.notIterable "NoneType")

/-- Run an action after taking a snapshot of the running rulesets, and
should the action fail, log that the rulesets are rolled back and load the
snapshot again.  The action's fault stands unless the rollback fails too;
then the rollback's fault replaces it. -/
def guarded {α : Type} (cfg : Config) (action : Snapshot → Act α) : Act α := do
  let snap ← snapshot cfg
  tryCatch (action snap) fun f => do
    Act.log .warning "Rolling back..."
    rollback cfg (some snap)
    throw f

/-- The diff of one ruleset against the running one. -/
def diffOf (cfg : Config) (kind : Kind) (rules : Option (List String)) (reverse : Bool) :
    Act (List String) := do
  let running ← Host.running cfg.commands kind
  match rules with
  | some r => pure (Ruleset.diff kind.normal r running reverse)
  | none => throw (.notIterable "NoneType")

/-- The printable diffs of three rulesets against the running ones. -/
def diffText (cfg : Config) (rules : Option Snapshot) (reverse : Bool) : Act String := do
  let a ← diffOf cfg .iptables (rules.map (·.iptables)) reverse
  let b ← diffOf cfg .ip6tables (rules.map (·.ip6tables)) reverse
  let c ← diffOf cfg .ipsets (rules.map (·.ipsets)) reverse
  pure (printable a "iptables changes:" 4 ++ printable b "ip6tables changes:" 4 ++
    printable c "ipsets changes:" 4)

/-- The three rulesets of an archive. -/
def archived (cfg : Config) (key : Value) : Act (String × Snapshot) := do
  let name ← Archive.find cfg.archiveDir key
  let (a, b, c) ← Archive.extract cfg.archiveDir name
  pure (name, ⟨a, b, c⟩)

/-- Load the rulesets of an archive. -/
def restoreArchived (cfg : Config) (key : Value) : Act Unit := do
  let (name, s) ← archived cfg key
  Act.log .info ("Restoring ruleset from '" ++ Path.join cfg.archiveDir name ++ "'")
  loadAll cfg s.iptables s.ip6tables s.ipsets

/-- The diffs from the running rulesets to those of an archive. -/
def diffArchive (cfg : Config) (key : Value) : Act String := do
  let (_, s) ← archived cfg key
  diffText cfg (some s) true

/-- Run the check commands. -/
def check (cfg : Config) : Act Unit := do
  let commands ← Act.lift (cfg.tree.child "check_commands" >>= Value.members)
  for c in commands do
    let argv ← Act.lift (Text.shellWords c.text)
    let _ ← Program.output (argv.map Value.str)

end Deploy
end Firewall
