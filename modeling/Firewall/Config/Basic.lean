import Firewall.Value.Access
import Firewall.Value.Store
import Firewall.Text.Path

/-!
# Firewall configurations

A firewall configuration is a configuration tree laid over the built-in
settings: where the restore files live, which commands save and restore the
rulesets, where archives go and how many are kept, and which check commands
run after an update.  Building one fails when the tree still uses a retired
key (`global`, `rules`, `variables`, tested in that order by truthiness), when
a command entry is missing, or when a file location is not a text.
-/

namespace Firewall

/-- The commands that save and restore the three rulesets; each is a
configured value, normally a program name. -/
structure Commands where
  iptablesSave : Value
  iptablesRestore : Value
  ip6tablesSave : Value
  ip6tablesRestore : Value
  ipset : Value
deriving Repr, BEq, Inhabited

/-- Where the three rulesets are saved. -/
structure RestoreFiles where
  iptables : String
  ip6tables : String
  ipsets : String
deriving Repr, BEq, Inhabited

/-- A firewall configuration: the merged tree and the settings read from it. -/
structure Config where
  tree : Value
  commands : Commands
  restoreFiles : RestoreFiles
  archiveDir : String
deriving Repr, Inhabited

namespace Config

/-- A plain mapping with text keys. -/
def plain (kvs : List (String × Value)) : Value := .dict (kvs.map fun (k, v) => (.str k, v))

/-- A plain mapping of texts. -/
def texts (kvs : List (String × String)) : Value := plain (kvs.map fun (k, v) => (k, .str v))

/-- The built-in settings under every configuration, plain mappings all. -/
def builtin : Value :=
  plain [
    ("restore_files", texts [
      ("iptables", "/var/lib/fwgen/rules/iptables.restore"),
      ("ip6tables", "/var/lib/fwgen/rules/ip6tables.restore"),
      ("ipsets", "/var/lib/fwgen/rules/ipsets.restore")]),
    ("cmds", texts [
      ("iptables_save", "iptables-save"),
      ("iptables_restore", "iptables-restore"),
      ("ip6tables_save", "ip6tables-save"),
      ("ip6tables_restore", "ip6tables-restore"),
      ("ipset", "ipset")]),
    ("archive", plain [("path", .str "/var/lib/fwgen/archive"), ("keep", .int 10)]),
    ("check_commands", .list [])]

/-- The first retired key that the tree sets to a true value. -/
def retiredKey (tree : Value) : Option Retired :=
  let isSet := fun k => match tree.mapping? with
    | some kvs => ((Value.lookup kvs (.str k)).map Value.truthy).getD false
    | none => false
  if isSet "global" then some .global
  else if isSet "rules" then some .rules
  else if isSet "variables" then some .variables
  else none

/-- A file location, which must be a text. -/
def location (v : Value) : Except Fault String :=
  match v with
  | .str s => .ok (Path.normalize s)
  | _ => .error (.notPath v.typeName)

/-- Lay a configuration over the built-in settings and read the settings. -/
def ofDoc (config : Doc) : Except Fault Config := do
  let tree := (← Doc.merge config (Doc.ofValue builtin)).read
  if let some k := retiredKey tree then throw (.retired k)
  let cmd := fun k => tree.path ["cmds", k]
  let commands : Commands :=
    ⟨← cmd "iptables_save", ← cmd "iptables_restore", ← cmd "ip6tables_save",
     ← cmd "ip6tables_restore", ← cmd "ipset"⟩
  let file := fun k => do location (← tree.path ["restore_files", k])
  let restoreFiles : RestoreFiles := ⟨← file "iptables", ← file "ip6tables", ← file "ipsets"⟩
  let archiveDir ← location (← tree.path ["archive", "path"])
  pure ⟨tree, commands, restoreFiles, archiveDir⟩

/-- An entry of the tree, or the fallback. -/
def get (c : Config) (k : String) (fallback : Value) : Value :=
  match c.tree.mapping? with
  | some kvs => (Value.lookup kvs (.str k)).getD fallback
  | none => fallback

end Config

end Firewall
