import Firewall.Rule.Line
import Firewall.Value.Access
import Firewall.Value.Text

/-!
# Zones and the chains that connect them

A zone is a set of interfaces, configured under `zones`.  Each zone gets its
own chains, named after the zone's position among the configured zones
(`zone0_INPUT`), except the two special zones, `local` (the host itself) and
`default` (every zone not otherwise listed), which keep their names.

The rules of a zone are given by table and chain:

- `PREROUTING` and `INPUT` rules go to a chain entered from the built-in chain
  for packets that arrive on the zone's interfaces;
- `FORWARD` rules likewise, and unless intra-zone traffic is forbidden, packets
  that leave again through the zone are accepted;
- `OUTPUT` and `POSTROUTING` rules go to a chain entered for packets that leave
  through the zone's interfaces;
- `to` maps destination zones to rules: each destination gets a chain
  entered from the zone's forward chain for packets leaving through the
  destination, or from its input chain for the host itself; the `default`
  destination's chain comes last and catches the rest.  A zone with `to`
  rules cannot also have `INPUT`, `FORWARD` or `OUTPUT` rules.

The local zone has `to` rules only, entered from `OUTPUT`.  Zone references in
the generated lines (`%{lan}`) are expanded later.
-/

namespace Firewall
namespace Zone

open Rule

/-- The zone of the host itself. -/
def localZone : String := "local"

/-- The zone of all traffic not otherwise listed. -/
def defaultZone : String := "default"

/-- The position of a zone among the configured zones, found by key equality. -/
def index (tree zone : Value) : Except Fault Nat := do
  let zones ← tree.getD "zones" (.dict [])
  let keys ← zones.keyList
  match keys.findIdx? (fun k => Value.sameKey k zone) with
  | some i => pure i
  | none => throw (.notInList zone.source)

/-- The name of a special zone, which its chains keep. -/
def special : Value → Option String
  | .str s => if s == localZone || s == defaultZone then some s else none
  | _ => none

/-- The name a zone's chains are prefixed with: the special zones keep their
names, the others are numbered by position. -/
def name (tree zone : Value) : Except Fault String :=
  match special zone with
  | some s => pure s
  | none => do pure ("zone" ++ toString (← index tree zone))

/-- A new chain, entered from `chain` for packets arriving through the zone. -/
def inbound (zone : Value) (chain target : String) (comment : Option String) : List Line :=
  [.declare target, .jump chain (some (.inbound zone.text)) comment target]

/-- A new chain, entered from `chain` for packets leaving through the zone. -/
def outbound (zone : Value) (chain target : String) (comment : Option String) : List Line :=
  [.declare target, .jump chain (some (.outbound zone.text)) comment target]

/-- A zone's forward chain, with intra-zone traffic accepted when allowed. -/
def forward (zone : Value) (target : String) (allowIntra : Bool) : List Line :=
  inbound zone "FORWARD" target none ++
    if allowIntra then [.jump target (some (.outbound zone.text)) (some "Intra-zone") "ACCEPT"]
    else []

/-- The rules of a chain, each appended to it. -/
def appendAll (chain : String) (rules : Value) : Except Fault (List Line) := do
  let members ← rules.members
  pure (members.map fun r => .append chain r.text)

/-- The chain of one destination of a zone's `to` rules, entered from `target`
for packets leaving through the destination (from `targetLocal` for the host),
then its rules; the default destination gets none here. -/
def destination (tree zone : Value) (zoneName target : String) (targetLocal : Option String)
    (toZone rules : Value) : Except Fault (List Line) := do
  let toTarget := zoneName ++ "_to_" ++ (← name tree toZone)
  let comment := zone.text ++ " -> " ++ toZone.text
  if toZone == .str defaultZone then pure []
  else
    let entry := match toZone == .str localZone, targetLocal with
      | true, some tl => [.declare toTarget, .jump tl none (some comment) toTarget]
      | _, _ => outbound toZone target toTarget (some comment)
    pure (entry ++ (← appendAll toTarget rules))

/-- The chain of the default destination, entered from `target` and from
`targetLocal`, then its rules. -/
def defaultChain (zoneName target : String) (targetLocal : Option String) (rules : Value) :
    Except Fault (List Line) := do
  let defaultTarget := zoneName ++ "_" ++ defaultZone
  let fromLocal := match targetLocal with
    | some tl => [Line.jump tl none none defaultTarget]
    | none => []
  pure ([.declare defaultTarget, .jump target none none defaultTarget] ++ fromLocal ++
    (← appendAll defaultTarget rules))

/-- The chains of a zone's `to` rules: one per destination, and last the chain
of the default destination. -/
def destinations (tree zone : Value) (target : String) (targetLocal : Option String)
    (toZones : Value) : Except Fault (List Line) := do
  let zoneName ← name tree zone
  let entries ← toZones.entries
  let listed ← entries.flatMapM fun (toZone, rules) =>
    destination tree zone zoneName target targetLocal toZone rules
  match Value.lookup entries (.str defaultZone) with
  | none => pure listed
  | some rules => pure (listed ++ (← defaultChain zoneName target targetLocal rules))

/-- The lines of one chain of the local zone's rules in a table: the local zone
has `to` chains only, entered from `OUTPUT`. -/
def localChainLines (tree zone table chains chain : Value) : Except Fault (List TableLine) :=
  if chain == .str "to" then do
    let lines ← destinations tree zone "OUTPUT" none (← chains.child "to")
    pure (lines.map (table, ·))
  else do throw (.invalidChain (← chain.formatArg))

/-- The lines of the local zone's rules, table by table. -/
def localLines (tree zone rules : Value) : Except Fault (List TableLine) := do
  let tables ← rules.entries
  tables.flatMapM fun (table, chains) => do
    let members ← chains.members
    members.flatMapM (localChainLines tree zone table chains)

/-- The entry lines of one chain of a zone's rules; the chain is a key of the
configuration, which names a built-in chain only when it is that text. -/
def chainEntry (tree zone : Value) (zoneName : String) (allowIntra : Bool)
    (chains : Value) (chain : Value) (items : Value) : Except Fault (List Line) :=
  let name := chain.text
  let target := zoneName ++ "_" ++ name
  let named := fun (t : String) => chain == .str t
  if named "PREROUTING" || named "INPUT" then pure (inbound zone name target none)
  else if named "FORWARD" then pure (forward zone target allowIntra)
  else if named "to" then do
    if let some other := ["INPUT", "FORWARD", "OUTPUT"].find? chains.hasKey then
      throw (.chainConflict zone.text other name)
    let targetLocal := zoneName ++ "_INPUT"
    let targetForward := zoneName ++ "_FORWARD"
    pure (inbound zone "INPUT" targetLocal none ++ forward zone targetForward allowIntra ++
      (← destinations tree zone targetForward (some targetLocal) items))
  else if named "OUTPUT" || named "POSTROUTING" then pure (outbound zone name target none)
  else do throw (.invalidChain (← chain.formatArg))

/-- The chain that a zone's rules for `chain` are appended to. -/
def ruleTarget (zoneName : String) (chain : Value) : String :=
  if chain == .str "to" then zoneName ++ "_FORWARD" else zoneName ++ "_" ++ chain.text

/-- The rules of a chain of a zone's rules, appended to the chain that
`ruleTarget` names, when they are given as a list. -/
def appendedRules (zoneName : String) (chain items : Value) : List Line :=
  match items.unfold with
  | .list xs => xs.map fun r => Line.append (ruleTarget zoneName chain) r.text
  | _ => []

/-- The lines of one chain of an ordinary zone's rules in a table: its entry
lines, then its rules. -/
def chainLines (tree zone : Value) (zoneName : String) (allowIntra : Bool)
    (table chains chain items : Value) : Except Fault (List TableLine) := do
  let entry ← chainEntry tree zone zoneName allowIntra chains chain items
  pure ((entry ++ appendedRules zoneName chain items).map (table, ·))

/-- The lines of an ordinary zone's rules, table by table and chain by chain. -/
def zoneLines (tree zone rules : Value) (allowIntra : Bool) : Except Fault (List TableLine) := do
  let zoneName ← name tree zone
  let tables ← rules.entries
  tables.flatMapM fun (table, chains) => do
    let chainEntries ← chains.entries
    chainEntries.flatMapM fun (chain, items) =>
      chainLines tree zone zoneName allowIntra table chains chain items

/-- The lines of one configured zone, read from its parameters: its rules, and
whether traffic within it is allowed. -/
def linesOf (tree zone params : Value) : Except Fault (List TableLine) := do
  let rules ← params.getD "rules" (.dict [])
  if zone == .str localZone then localLines tree zone rules
  else
    let allowIntra ← params.getD "allow_intra_zone" (.bool true)
    zoneLines tree zone rules allowIntra.truthy

/-- The lines of all configured zones, in configuration order. -/
def allLines (tree : Value) : Except Fault (List TableLine) := do
  let zones ← tree.getD "zones" (.dict [])
  let entries ← zones.entries
  entries.flatMapM fun (zone, params) => linesOf tree zone params

@[simp] theorem name_local (tree : Value) : name tree (.str localZone) = .ok localZone := by
  simp [name, special, localZone]
  rfl

@[simp] theorem name_default (tree : Value) : name tree (.str defaultZone) = .ok defaultZone := by
  simp [name, special, localZone, defaultZone]
  rfl

end Zone
end Firewall
