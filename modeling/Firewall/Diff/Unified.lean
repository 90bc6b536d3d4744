import Firewall.Diff.Matching

/-!
# Unified diffs

A unified diff shows the changes between two sequences of lines in hunks.
Each hunk holds a run of changes with up to three lines of unchanged context
on each side; an unchanged stretch longer than twice the context splits two
hunks.  The text starts with the header lines `--- ` and `+++ ` (no file names
or dates), and each hunk with `@@ -a,b +c,d @@`, where a range of one line
is written without its length and an empty range by the line before it.
Context lines start with a blank, removed lines with `-`, added lines with `+`.
Two equal sequences give no lines at all.
-/

namespace Firewall
namespace Diff

/-- An equal step cut to its last `n` lines: the context before a change. -/
def Opcode.leading (n : Nat) (c : Opcode) : Opcode :=
  { c with oldLo := max c.oldLo (c.oldHi - n), newLo := max c.newLo (c.newHi - n) }

/-- An equal step cut to its first `n` lines: the context after a change. -/
def Opcode.trailing (n : Nat) (c : Opcode) : Opcode :=
  { c with oldHi := min c.oldHi (c.oldLo + n), newHi := min c.newHi (c.newLo + n) }

/-- The steps with the context before the first change cut to `n` lines. -/
def trimFirst (n : Nat) : List Opcode → List Opcode
  | c :: rest => if c.tag = Tag.equal then c.leading n :: rest else c :: rest
  | [] => []

/-- The steps with the context after the last change cut to `n` lines. -/
def trimLast (n : Nat) (codes : List Opcode) : List Opcode :=
  match codes.getLast? with
  | some c => if c.tag = Tag.equal then codes.dropLast ++ [c.trailing n] else codes
  | none => codes

/-- One step of the grouping into hunks, the finished hunks and the open one:
an equal step longer than twice the context closes the open hunk with its first
`n` lines and opens the next with its last `n`. -/
def groupStep (n : Nat) (acc : List (List Opcode) × List Opcode) (c : Opcode) :
    List (List Opcode) × List Opcode :=
  if c.tag = Tag.equal && c.oldHi - c.oldLo > n + n then
    (acc.1 ++ [acc.2 ++ [c.trailing n]], [c.leading n])
  else (acc.1, acc.2 ++ [c])

/-- The hunks, the open one included unless it is a lone equal step. -/
def closeGroups : List (List Opcode) × List Opcode → List (List Opcode)
  | (done, [c]) => if c.tag = Tag.equal then done else done ++ [[c]]
  | (done, []) => done
  | (done, last) => done ++ [last]

/-- The opcodes of the changes, grouped into hunks with `n` lines of context. -/
def groups (n : Nat) (codes : List Opcode) : List (List Opcode) :=
  let codes := if codes.isEmpty then [⟨.equal, 0, 1, 0, 1⟩] else codes
  closeGroups ((trimLast n (trimFirst n codes)).foldl (groupStep n) ([], []))

/-- A range of lines in hunk-header form: first line and length, the length
left out when it is one, and an empty range shown by the line before it. -/
def rangeText (lo hi : Nat) : String :=
  let length := hi - lo
  if length = 1 then toString (lo + 1)
  else if length = 0 then toString lo ++ "," ++ toString length
  else toString (lo + 1) ++ "," ++ toString length

/-- The lines of a list in `[lo, hi)`. -/
def slice (xs : List String) (lo hi : Nat) : List String := (xs.drop lo).take (hi - lo)

/-- The lines of one hunk. -/
def hunkLines (old new : List String) (hunk : List Opcode) : List String :=
  match hunk.head?, hunk.getLast? with
  | some first, some last =>
    let header := "@@ -" ++ rangeText first.oldLo last.oldHi ++ " +" ++
      rangeText first.newLo last.newHi ++ " @@"
    header :: hunk.flatMap fun c =>
      match c.tag with
      | .equal => (slice old c.oldLo c.oldHi).map (" " ++ ·)
      | .delete => (slice old c.oldLo c.oldHi).map ("-" ++ ·)
      | .insert => (slice new c.newLo c.newHi).map ("+" ++ ·)
      | .replace =>
        (slice old c.oldLo c.oldHi).map ("-" ++ ·) ++ (slice new c.newLo c.newHi).map ("+" ++ ·)
  | _, _ => []

/-- The unified diff from the old to the new sequence, with three lines of context. -/
def unified (old new : List String) : List String :=
  match groups 3 (opcodes old new) with
  | [] => []
  | hunks => "--- " :: "+++ " :: hunks.flatMap (hunkLines old new)

@[simp] theorem rangeText_one (lo : Nat) : rangeText lo (lo + 1) = toString (lo + 1) := by
  simp [rangeText]

end Diff
end Firewall
