import Firewall.Ruleset.Basic
import Firewall.Diff.Unified
import Firewall.Text.Lines

/-!
# Comparing rulesets

Saved rulesets are brought into a normal form before they are compared, so
that what the kernel reports on its own does not show as a change:

- packet filter rulesets lose their comment lines (those starting with `#`)
  and the packet and byte counters `[p:b]` that close a chain line;
- ip set rulesets have the `add` lines of each set sorted, since the kernel
  lists entries in no fixed order.

A counter is cut when the line, after its first colon and at least one
further character on the same line, ends in `[digits:digits]` (a final line
feed aside); what remains is the text from that colon to the counter.

The printable form of a diff is a header, a blank line, and the diff lines
indented, each but the blank ones; an empty diff prints as nothing.
-/

namespace Firewall
namespace Ruleset

/-- The normal forms that rulesets are compared in. -/
inductive Normal where
  | asSaved
  | withoutCounters
  | entriesSorted
deriving Repr, DecidableEq

/-- The normal form of each ruleset. -/
def Kind.normal : Kind → Normal
  | .iptables | .ip6tables => .withoutCounters
  | .ipsets => .entriesSorted

/-- The start of a counter `[digits:digits]` that ends the characters, if
they end in one. -/
def counterStart (cs : List Char) : Option Nat :=
  let rev := cs.reverse
  match rev with
  | ']' :: rest =>
    let low := rest.takeWhile Char.isDigit
    match rest.drop low.length with
    | ':' :: rest' =>
      let high := rest'.takeWhile Char.isDigit
      match rest'.drop high.length with
      | '[' :: before =>
        if low.isEmpty || high.isEmpty then none else some before.length
      | _ => none
    | _ => none
  | _ => none

/-- The first index at which a colon opens the counted part of a line that has
its counter at `q`: the colon must stand on the counter's line, at least two
places before it. -/
def counterColon (cs : List Char) (q : Nat) : Option Nat :=
  let lineStart := match ((cs.take q).reverse.findIdx? (· == '\n')) with
    | some k => q - k
    | none => 0
  ((List.range' lineStart (q - 1 - lineStart)).find? fun p => cs[p]? == some ':')

/-- A chain line without its counters. -/
def cutCounters (line : String) : String :=
  let cs := line.toList
  let body := if cs.getLast? == some '\n' then cs.dropLast else cs
  match counterStart body with
  | none => line
  | some q =>
    match counterColon body q with
    | some p => String.ofList ((body.take q).drop p)
    | none => line

/-- One step of sorting the runs of `add` lines, with the lines done and the
run under way: an `add` line joins the run, any other line ends it. -/
def entryStep (acc : List String × List String) (l : String) : List String × List String :=
  if l.startsWith "add " then (acc.1, acc.2 ++ [l])
  else (acc.1 ++ acc.2.mergeSort Text.codeOrder ++ [l], [])

/-- Sort the runs of `add` lines, keeping everything else in place. -/
def sortEntries (lines : List String) : List String :=
  let (done, run) := lines.foldl entryStep ([], [])
  done ++ run.mergeSort Text.codeOrder

/-- A ruleset in a normal form. -/
def Normal.apply : Normal → List String → List String
  | .asSaved, lines => lines
  | .withoutCounters, lines => (lines.filter fun l => !l.startsWith "#").map cutCounters
  | .entriesSorted, lines => sortEntries lines

/-- The diff between a ruleset and the running one, both in normal form:
from the given rules to the running ones, or back when `reverse` is set. -/
def diff (normal : Normal) (rules running : List String) (reverse : Bool) : List String :=
  if reverse then Diff.unified (normal.apply running) (normal.apply rules)
  else Diff.unified (normal.apply rules) (normal.apply running)

/-- A text indented line by line, lines of white space only left alone. -/
def indentText (text prefixText : String) : String :=
  String.join ((Text.linesWithEnds text).map fun l =>
    if (Text.strip l).isEmpty then l else prefixText ++ l)

/-- The printable form of a diff under a header. -/
def printable (lines : List String) (header : String) (indent : Int) : String :=
  let content := "\n".intercalate lines
  if content.isEmpty then ""
  else header ++ "\n\n" ++ indentText content (String.ofList (List.replicate indent.toNat ' ')) ++ "\n"

@[simp] theorem apply_asSaved (lines : List String) : Normal.asSaved.apply lines = lines := rfl

end Ruleset
end Firewall
