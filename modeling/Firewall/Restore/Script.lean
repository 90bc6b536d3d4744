import Firewall.Rule.Chains
import Firewall.Rule.Expand
import Firewall.Zone.Chains

/-!
# Restore scripts

A restore script lists, for each table in script order, the header `*table`,
the expanded rules of that table in the order given, and `COMMIT`.  Rules of
other tables are left out.

The rules of a configuration are, in this order: the policies of the built-in
chains, the helper chains, the rule lists `pre_default`, `default` and
`pre_zone`, and the chains of the zones.
-/

namespace Firewall
namespace Restore

open Rule

/-- The section of one table: its header, the expansions of the rules that
belong to it, and `COMMIT`.  Each rule is read as a pair of a table and a rule
text. -/
def tableSection (tree : Value) (rules : List Value) (table : String) : Except Fault (List String) := do
  let body ← rules.flatMapM fun r => do
    let (t, rule) ← r.pair
    if t == .str table then (expand tree rule).toExcept else pure []
  pure (("*" ++ table) :: body ++ ["COMMIT"])

/-- The restore script of a list of rules, each a pair of a table and a rule. -/
def script (tree : Value) (rules : Value) : Except Fault (List String) := do
  let members ← rules.members
  tables.flatMapM (tableSection tree members)

/-- A table line as a pair of texts. -/
def TableLine.toValue (l : TableLine) : Value := .list [l.1, .str l.2.text]

/-- All rules of a configuration, in script order. -/
def configLines (tree : Value) : Except Fault (List TableLine) := do
  let policies ← policyLines tree
  let helpers ← helperLines tree
  let preDefault ← listLines (← tree.getD "pre_default" (.dict []))
  let defaults ← listLines (← tree.getD "default" (.dict []))
  let preZone ← listLines (← tree.getD "pre_zone" (.dict []))
  let zones ← Zone.allLines tree
  pure (policies ++ helpers ++ preDefault ++ defaults ++ preZone ++ zones)

/-- The restore script of a configuration. -/
def ofConfig (tree : Value) : Except Fault (List String) := do
  let lines ← configLines tree
  script tree (.list (lines.map TableLine.toValue))

end Restore
end Firewall
