import Firewall.Rule.Template
import Firewall.Value.Access
import Firewall.Value.Text
import Firewall.Address.Network
import Firewall.Run

/-!
# Expanding rule templates

A rule text is expanded by replacing its leftmost reference by each value in
turn and expanding the results again, so that every combination of values
appears, the leftmost reference varying slowest.

- `${name}` takes the values of the object `name` under `objects`; a value that
  is not a list is a list of one.  For iptables rules, an IPv4 network value
  restricts the rule to IPv4: a rule marked `-6` is dropped, one not marked
  `-4` gets the prefix `-4 `.  IPv6 values do the same with `-6`.  Other values, and
  all values of rules of other kinds, are substituted as they are.  The rules
  obtained by substitution are iptables rules.
- `%{name}` takes the members of the `interfaces` of the zone `name`: the items
  of a list, the characters of a text.

A rule is marked with an option when the option starts it, ends it, or stands
between blanks inside it.  Nesting deeper than `depthLimit` is a fault.
-/

namespace Firewall
namespace Rule

/-- Whether `sub` occurs in `s` as a contiguous piece. -/
def occursIn (sub s : String) : Bool :=
  go sub.toList s.toList
where
  go (p : List Char) : List Char → Bool
    | [] => p.isEmpty
    | c :: cs => p.isPrefixOf (c :: cs) || go p cs

/-- Whether the rule carries the option as a word: at its start, at its end,
or between two blanks. -/
def hasOption (rule option : String) : Bool :=
  rule.startsWith (option ++ " ") || occursIn (" " ++ option ++ " ") rule ||
    rule.endsWith (" " ++ option)

/-- Whether a rule, which must be a text, carries the option. -/
def carries (rule : Value) (option : String) : Except Fault Bool :=
  match rule with
  | .str s => .ok (hasOption s option)
  | v => .error (.noAttribute v.typeName "startswith")

/-- The rule is restricted to IPv4. -/
def markedV4 (rule : String) : Bool := hasOption rule "-4"

/-- The rule is restricted to IPv6. -/
def markedV6 (rule : String) : Bool := hasOption rule "-6"

/-- The kinds of rules: iptables rules are classified by address family, the
others (ipset entries) are not. -/
inductive Kind where
  | iptables
  | other
deriving Repr, DecidableEq

/-- The kind named by a value: only the text `iptables` names iptables rules. -/
def Kind.ofValue : Value → Kind
  | .str "iptables" => .iptables
  | _ => .other

/-- How deep references may nest.  The bound stands for the call stack of a
real run, which allows about this many nested calls but spends several on
each level and some on the callers, so it stops a deep nesting some levels
earlier: a nesting that stops at this bound fails in a real run too, and one
that nests almost as deep may fail there while it expands here. -/
def depthLimit : Nat := 1000

/-- The rule after substituting a value, restricted to the value's address
family: `none` when the rule is marked for the other family. -/
def restrictFamily (value : Value) (rule : String) : Except Fault (Option String) := do
  if ← Address.classify .v4 value then
    pure (if markedV6 rule then none else some (if markedV4 rule then rule else "-4 " ++ rule))
  else if ← Address.classify .v6 value then
    pure (if markedV4 rule then none else some (if markedV6 rule then rule else "-6 " ++ rule))
  else pure (some rule)

/-- Expand the object references of a rule text, with at most `fuel` levels. -/
def expandObjectsWith (tree : Value) : Nat → Kind → String → Run String
  | 0, _, _ => Run.fail .recursion
  | fuel + 1, kind, rule =>
    match Reference.find? '$' rule with
    | none => Run.ofList [rule]
    | some r =>
      match tree.path ["objects", r.key] with
      | .error f => Run.fail f
      | .ok values =>
        Run.feed (fun value =>
          let filled := r.fill value.text
          let restricted := match kind with
            | .iptables => restrictFamily value filled
            | .other => .ok (some filled)
          match restricted with
          | .error f => Run.fail f
          | .ok none => Run.ofList []
          | .ok (some s) => expandObjectsWith tree fuel .iptables s) values.asList

/-- Expand the zone references of a rule text, with at most `fuel` levels. -/
def expandZonesWith (tree : Value) : Nat → String → Run String
  | 0, _ => Run.fail .recursion
  | fuel + 1, rule =>
    match Reference.find? '%' rule with
    | none => Run.ofList [rule]
    | some r =>
      match tree.path ["zones", r.key, "interfaces"] >>= Value.members with
      | .error f => Run.fail f
      | .ok members => Run.feed (fun i => expandZonesWith tree fuel (r.fill i.text)) members

/-- Expand the object references of a rule, which must be a text. -/
def expandObjects (tree : Value) (kind : Kind) (rule : Value) : Run String :=
  match rule with
  | .str s => expandObjectsWith tree depthLimit kind s
  | v => Run.fail (.notText v.typeName)

/-- Expand the zone references of a rule, which must be a text. -/
def expandZones (tree : Value) (rule : Value) : Run String :=
  match rule with
  | .str s => expandZonesWith tree depthLimit s
  | v => Run.fail (.notText v.typeName)

/-- Expand a rule's objects, then the zones of each result. -/
def expand (tree : Value) (rule : Value) : Run String :=
  (expandObjects tree .iptables rule).bind (fun s => expandZonesWith tree depthLimit s)

end Rule
end Firewall
