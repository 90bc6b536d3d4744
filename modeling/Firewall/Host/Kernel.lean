import Firewall.Text.Lines
import Firewall.Fault
import Firewall.Ruleset.Basic

/-!
# An in-memory kernel

A kernel holds the two packet filter rulesets, as the lines that were last
loaded, and the ip sets, in the order they were created.  Loading a packet
filter script replaces the ruleset by the script's lines.  Loading an ipset
script runs its lines one by one on the sets:

- `create N spec…` makes a new, empty set;
- `add N entry…` adds an entry to a set;
- `swap A B` exchanges the contents of two sets;
- `flush [N]` empties one set, or all;
- `destroy [N]` removes one set, or all.

Blank lines are skipped.  A line that names a missing set, creates one that
exists, or cannot be read fails the whole script, which then changes nothing.

A kernel can also be told to refuse the next loads of a family, to show how
the firewall recovers.
-/

namespace Firewall

/-- An ip set: its name, its type and options, and its entries in order. -/
structure IpSet where
  name : String
  spec : String
  entries : List String
deriving Repr, DecidableEq, Inhabited

/-- The rulesets and ip sets of a kernel, and the loads it will refuse. -/
structure Kernel where
  iptables : List String
  ip6tables : List String
  sets : List IpSet
  refusals : List (String × Int)
deriving Repr, Inhabited

namespace IpSet

/-- The lines that list a set: its creation, then one line per entry. -/
def listing (s : IpSet) : List String :=
  Text.stripEnd ("create " ++ s.name ++ " " ++ s.spec) :: s.entries.map (fun e => "add " ++ s.name ++ " " ++ e)

/-- Whether a set of the name exists. -/
def exists_ (sets : List IpSet) (name : String) : Bool := sets.any (·.name == name)

/-- Change the set of the name. -/
def update (sets : List IpSet) (name : String) (f : IpSet → IpSet) : List IpSet :=
  sets.map fun s => if s.name == name then f s else s

/-- The failure of a script line, with its number. -/
def lineFault (n : Nat) (what : String) : String := "line " ++ toString n ++ ": " ++ what

/-- Run one line of an ipset script on the sets. -/
def runLine (sets : List IpSet) (n : Nat) (line : String) : Except String (List IpSet) :=
  let missing := fun name => Except.error (lineFault n ("set " ++ name ++ " does not exist"))
  match Text.words line with
  | [] => .ok sets
  | "create" :: name :: spec =>
    if exists_ sets name then .error (lineFault n ("set " ++ name ++ " already exists"))
    else .ok (sets ++ [⟨name, " ".intercalate spec, []⟩])
  | "add" :: name :: entry@(_ :: _) =>
    if exists_ sets name then .ok (update sets name fun s => { s with entries := s.entries ++ [" ".intercalate entry] })
    else missing name
  | ["swap", a, b] =>
    match sets.find? (·.name == a), sets.find? (·.name == b) with
    | some x, some y =>
      .ok (sets.map fun s =>
        if s.name == a then { y with name := a } else if s.name == b then { x with name := b } else s)
    | none, _ => missing a
    | _, none => missing b
  | ["flush"] => .ok (sets.map fun s => { s with entries := [] })
  | ["flush", name] =>
    if exists_ sets name then .ok (update sets name fun s => { s with entries := [] }) else missing name
  | ["destroy"] => .ok []
  | ["destroy", name] =>
    if exists_ sets name then .ok (sets.filter (·.name != name)) else missing name
  | _ => .error (lineFault n ("cannot parse: " ++ Text.strip line))

/-- Run the lines of an ipset script, numbered by `number`. -/
def runLines (number : Nat → Nat) (sets : List IpSet) (lines : List String) : Except Fault (List IpSet) :=
  (lines.zipIdx.foldlM (fun acc (l, i) => runLine acc (number i) l) sets).mapError Fault.rulesetFailed

end IpSet

namespace Kernel

/-- The text a script is loaded as: its lines, each ended by a line feed. -/
def scriptText (lines : List String) : String := "\n".intercalate lines ++ "\n"

/-- A kernel with the given rulesets and the sets made by ipset commands,
each given whole, line feeds included, and counted as line 0. -/
def boot (iptables ip6tables ipsets : List String) (refusals : List (String × Int)) :
    Except Fault Kernel := do
  let sets ← IpSet.runLines (fun _ => 0) [] ipsets
  pure ⟨iptables, ip6tables, sets, refusals⟩

/-- The loads still to be refused for a family. -/
def pending (k : Kernel) (family : String) : Int :=
  ((k.refusals.find? (·.1 == family)).map (·.2)).getD 0

/-- Record that a refusal was used. -/
def useRefusal (k : Kernel) (family : String) : Kernel :=
  { k with refusals := k.refusals.map fun e => if e.1 == family then (e.1, e.2 - 1) else e }

/-- Set the number of refusals of families. -/
def setRefusals (k : Kernel) (counts : List (String × Int)) : Kernel :=
  counts.foldl (fun k (f, n) =>
    if k.refusals.any (·.1 == f) then
      { k with refusals := k.refusals.map fun e => if e.1 == f then (f, n) else e }
    else { k with refusals := k.refusals ++ [(f, n)] }) k

/-- Load a script of a ruleset, unless the kernel refuses it. -/
def load (k : Kernel) (kind : Ruleset.Kind) (lines : List String) : Except Fault Kernel :=
  let family := kind.key
  if k.pending family > 0 then .error (.rulesetFailed (family ++ "-restore: forced failure"))
  else
    match kind with
    | .iptables => .ok { k with iptables := Text.lines (scriptText lines) }
    | .ip6tables => .ok { k with ip6tables := Text.lines (scriptText lines) }
    | .ipsets => do
      let sets ← IpSet.runLines (· + 1) k.sets (Text.lines (scriptText lines))
      pure { k with sets := sets }

/-- The kernel after a load was refused. -/
def afterRefusal (k : Kernel) (kind : Ruleset.Kind) : Kernel :=
  if k.pending kind.key > 0 then k.useRefusal kind.key else k

/-- The lines a ruleset is listed in. -/
def running (k : Kernel) : Ruleset.Kind → List String
  | .iptables => k.iptables
  | .ip6tables => k.ip6tables
  | .ipsets => k.sets.flatMap IpSet.listing

/-- The names of the sets. -/
def setNames (k : Kernel) : List String := k.sets.map (·.name)

end Kernel

@[simp] theorem Kernel.running_iptables (k : Kernel) : k.running .iptables = k.iptables := rfl

end Firewall
