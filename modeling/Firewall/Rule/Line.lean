import Firewall.Value.Basic

/-!
# Lines of a restore script

The lines that rule generation produces for a table section:

- a built-in chain's policy, `:INPUT DROP`;
- a new chain, `:zone0_INPUT -`;
- a jump from one chain to another, optionally guarded by the interfaces of a
  zone (`-i %{lan}` inbound, `-o %{lan}` outbound, still to be expanded) and
  optionally commented: `-A INPUT -i %{lan} -m comment --comment "c" -j T`;
- a configured rule appended to a chain, `-A chain rule`.
-/

namespace Firewall
namespace Rule

/-- The interfaces a jump is restricted to: those of a zone, for packets
coming in or going out. -/
inductive Guard where
  | inbound (zone : String)
  | outbound (zone : String)
deriving Repr, DecidableEq

/-- A line of a table section. -/
inductive Line where
  | policy (chain verdict : String)
  | declare (chain : String)
  | jump (chain : String) (guard : Option Guard) (comment : Option String) (target : String)
  | append (chain rule : String)
deriving Repr, DecidableEq

/-- The match text of a guard. -/
def Guard.text : Guard → String
  | .inbound z => " -i %\x7b" ++ z ++ "\x7d"
  | .outbound z => " -o %\x7b" ++ z ++ "\x7d"

/-- The text of a line. -/
def Line.text : Line → String
  | .policy c v => ":" ++ c ++ " " ++ v
  | .declare c => ":" ++ c ++ " -"
  | .jump c g cm t =>
    "-A " ++ c ++ (g.map Guard.text).getD "" ++
      (cm.map fun m => " -m comment --comment \"" ++ m ++ "\"").getD "" ++ " -j " ++ t
  | .append c r => "-A " ++ c ++ " " ++ r

/-- The chain a line adds to or declares. -/
def Line.chain : Line → String
  | .policy c _ | .declare c | .jump c _ _ _ | .append c _ => c

/-- A line of a table's section, with the table as the configuration names it. -/
abbrev TableLine := Value × Line

@[simp] theorem text_declare (c : String) : (Line.declare c).text = ":" ++ c ++ " -" := rfl

end Rule
end Firewall
