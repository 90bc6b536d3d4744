import Firewall.Rule.Chains

/-!
# Rulesets

The firewall keeps three rulesets, each loaded by a restore command and read
back by a save command: the IPv4 packet filter rules, the IPv6 packet filter
rules, and the ip sets.  Clearing a packet filter ruleset loads, for every
table, its built-in chains with policy `ACCEPT` and nothing else; clearing
the ip sets flushes and destroys all of them.
-/

namespace Firewall
namespace Ruleset

/-- The three rulesets. -/
inductive Kind where
  | iptables
  | ip6tables
  | ipsets
deriving Repr, DecidableEq, Inhabited

/-- The script that clears a ruleset. -/
def Kind.clearScript : Kind → List String
  | .ipsets => ["flush", "destroy"]
  | _ => Rule.builtinChains.flatMap fun (table, chains) =>
      ("*" ++ table) :: chains.map (fun c => (Rule.Line.policy c "ACCEPT").text) ++ ["COMMIT"]

/-- The name of a ruleset type, as recorded loads name it. -/
def Kind.name : Kind → String
  | .iptables => "iptables"
  | .ip6tables => "ip6tables"
  | .ipsets => "ipset"

/-- The name of a ruleset, as the configuration names it. -/
def Kind.key : Kind → String
  | .iptables => "iptables"
  | .ip6tables => "ip6tables"
  | .ipsets => "ipsets"

@[simp] theorem clearScript_ipsets : Kind.ipsets.clearScript = ["flush", "destroy"] := rfl

end Ruleset
end Firewall
