import Firewall.Rule.Line
import Firewall.Value.Access
import Firewall.Value.Text

/-!
# Built-in chains, policies and rule lists

The five tables and their built-in chains, in the order the restore script
lists them; the policy line of each built-in chain (`ACCEPT` unless the
configuration's `policy` names one); the declarations and rules of helper
chains; and the lines of a rule list, a mapping from tables to chains to the
rules of each chain.
-/

namespace Firewall
namespace Rule

/-- The tables and their built-in chains, in script order. -/
def builtinChains : List (String × List String) :=
  [("filter", ["INPUT", "FORWARD", "OUTPUT"]),
   ("nat", ["PREROUTING", "INPUT", "OUTPUT", "POSTROUTING"]),
   ("mangle", ["PREROUTING", "INPUT", "FORWARD", "OUTPUT", "POSTROUTING"]),
   ("raw", ["PREROUTING", "OUTPUT"]),
   ("security", ["INPUT", "FORWARD", "OUTPUT"])]

/-- The tables, in script order. -/
def tables : List String := builtinChains.map (·.1)

/-- The policy of a built-in chain: the configured one, or `ACCEPT` when the
configuration names none.  Other failures of the look-up stand. -/
def policyOf (tree : Value) (table chain : String) : Except Fault String :=
  match tree.path ["policy", table, chain] with
  | .ok v => .ok v.text
  | .error (.missingKey _) => .ok "ACCEPT"
  | .error f => .error f

/-- The policy lines of all built-in chains. -/
def policyLines (tree : Value) : Except Fault (List TableLine) :=
  builtinChains.flatMapM fun (table, chains) =>
    chains.mapM fun chain => do pure (.str table, Line.policy chain (← policyOf tree table chain))

/-- The lines of a rule list: every rule appended to its chain, by table,
chain and rule order.  A text of rules counts as its characters. -/
def listLines (rules : Value) : Except Fault (List TableLine) := do
  let tables ← rules.entries
  tables.flatMapM fun (table, chains) => do
    let chainEntries ← chains.entries
    chainEntries.flatMapM fun (chain, chainRules) => do
      let members ← chainRules.members
      pure (members.map fun r => (table, Line.append chain.text r.text))

/-- The helper chains: their declarations, table by table, then their rules. -/
def helperLines (tree : Value) : Except Fault (List TableLine) := do
  let helpers := match tree.child "helper_chains" with
    | .ok v => v
    | .error _ => .dict []
  let tables ← helpers.entries
  let declared ← tables.flatMapM fun (table, chains) => do
    let members ← chains.members
    members.mapM fun c => do pure (table, Line.declare (← c.formatArg))
  pure (declared ++ (← listLines helpers))

end Rule
end Firewall
