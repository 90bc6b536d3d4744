/-!
# Matching blocks of two sequences

Two sequences of lines are compared by the Ratcliff–Obershelp method: find the
longest block of equal lines, then recurse on what lies before it and what lies
after it on both sides.  The blocks found, in order, are the matching blocks;
between them lie the changes.

- *Longest block*: among the longest, the one that starts first in the old
  sequence, and of those the one that starts first in the new sequence.  When
  the new sequence has at least 200 lines, a line occurring there more than
  once per hundred lines (plus one) is *popular* and cannot start or carry a
  match by itself; a block found without popular lines is then extended by
  equal lines on both ends, popular or not.
- *Opcodes*: the steps that turn the old sequence into the new one, each an
  equal, a replaced, a deleted or an inserted range.
-/

namespace Firewall
namespace Diff

/-- A block of `size` equal lines, at `old` in the old and at `new` in the new
sequence. -/
structure Block where
  old : Nat
  new : Nat
  size : Nat
deriving Repr, DecidableEq, Inhabited

/-- What a step does with its ranges. -/
inductive Tag where
  | equal
  | replace
  | delete
  | insert
deriving Repr, DecidableEq

/-- A step: the range `[oldLo, oldHi)` of the old sequence becomes the range
`[newLo, newHi)` of the new one. -/
structure Opcode where
  tag : Tag
  oldLo : Nat
  oldHi : Nat
  newLo : Nat
  newHi : Nat
deriving Repr, DecidableEq

/-- Two sequences under comparison, with the popular lines of the new one. -/
structure Pair where
  old : Array String
  new : Array String
  popular : List String

namespace Pair

/-- The lines of the new sequence that are too frequent to anchor a match. -/
def popularOf (new : Array String) : List String :=
  if new.size < 200 then []
  else
    let limit := new.size / 100 + 1
    (new.toList.eraseDups).filter fun x => new.toList.count x > limit

/-- A pair of sequences to compare. -/
def ofLists (old new : List String) : Pair :=
  ⟨old.toArray, new.toArray, popularOf new.toArray⟩

/-- A line of the old sequence. -/
def oldAt (p : Pair) (i : Nat) : String := p.old.getD i ""

/-- A line of the new sequence. -/
def newAt (p : Pair) (j : Nat) : String := p.new.getD j ""

/-- The positions in `[lo, hi)` of the new sequence that hold the line. -/
def positions (p : Pair) (line : String) (lo hi : Nat) : List Nat :=
  if p.popular.contains line then []
  else (List.range' lo (hi - lo)).filter fun j => p.newAt j == line

/-- One row of the search: for each position of the new sequence that matches
line `i`, the length of the equal run ending there, and the best block so far. -/
def row (p : Pair) (lo hi i : Nat) (prev : List (Nat × Nat)) (best : Block) :
    List (Nat × Nat) × Block :=
  (p.positions (p.oldAt i) lo hi).foldl (fun (acc : List (Nat × Nat) × Block) j =>
    let before := if j = 0 then 0 else ((prev.lookup (j - 1)).getD 0)
    let k := before + 1
    let best := if k > acc.2.size then ⟨i + 1 - k, j + 1 - k, k⟩ else acc.2
    ((j, k) :: acc.1, best)) ([], best)

/-- Grow a block backwards over equal lines, staying within the bounds. -/
def growBack (p : Pair) (oldLo newLo : Nat) : Nat → Block → Block
  | 0, b => b
  | fuel + 1, b =>
    if oldLo < b.old && newLo < b.new && p.oldAt (b.old - 1) == p.newAt (b.new - 1) then
      growBack p oldLo newLo fuel ⟨b.old - 1, b.new - 1, b.size + 1⟩
    else b

/-- Grow a block forwards over equal lines, staying within the bounds. -/
def growFront (p : Pair) (oldHi newHi : Nat) : Nat → Block → Block
  | 0, b => b
  | fuel + 1, b =>
    if b.old + b.size < oldHi && b.new + b.size < newHi &&
        p.oldAt (b.old + b.size) == p.newAt (b.new + b.size) then
      growFront p oldHi newHi fuel ⟨b.old, b.new, b.size + 1⟩
    else b

/-- The longest block of equal lines within `[oldLo, oldHi)` and `[newLo, newHi)`;
size zero when there is none. -/
def longest (p : Pair) (oldLo oldHi newLo newHi : Nat) : Block :=
  let start : List (Nat × Nat) × Block := ([], ⟨oldLo, newLo, 0⟩)
  let found := ((List.range' oldLo (oldHi - oldLo)).foldl
    (fun acc i => p.row newLo newHi i acc.1 acc.2) start).2
  growFront p oldHi newHi (oldHi - oldLo) (growBack p oldLo newLo (oldHi - oldLo) found)

/-- The matching blocks within the ranges, in order; `fuel` bounds the depth,
and each level shrinks the old range by at least one line. -/
def blocksWithin (p : Pair) : Nat → Nat → Nat → Nat → Nat → List Block
  | 0, _, _, _, _ => []
  | fuel + 1, oldLo, oldHi, newLo, newHi =>
    let m := p.longest oldLo oldHi newLo newHi
    if m.size = 0 then []
    else
      let before := if oldLo < m.old && newLo < m.new then
        p.blocksWithin fuel oldLo m.old newLo m.new else []
      let after := if m.old + m.size < oldHi && m.new + m.size < newHi then
        p.blocksWithin fuel (m.old + m.size) oldHi (m.new + m.size) newHi else []
      before ++ m :: after

/-- Merge blocks that continue each other. -/
def joinAdjacent : List Block → List Block
  | a :: b :: rest =>
    if a.old + a.size = b.old && a.new + a.size = b.new then
      joinAdjacent (⟨a.old, a.new, a.size + b.size⟩ :: rest)
    else a :: joinAdjacent (b :: rest)
  | xs => xs
termination_by xs => xs.length

/-- The matching blocks of the two sequences, adjacent ones merged, closed by
an empty block at the two ends. -/
def blocks (p : Pair) : List Block :=
  joinAdjacent (p.blocksWithin (p.old.size + 1) 0 p.old.size 0 p.new.size) ++
    [⟨p.old.size, p.new.size, 0⟩]

end Pair

/-- The steps between matching blocks, starting at positions `i` and `j`. -/
def opcodesFrom : Nat → Nat → List Block → List Opcode
  | _, _, [] => []
  | i, j, b :: rest =>
    let change : List Opcode :=
      if i < b.old && j < b.new then [⟨.replace, i, b.old, j, b.new⟩]
      else if i < b.old then [⟨.delete, i, b.old, j, b.new⟩]
      else if j < b.new then [⟨.insert, i, b.old, j, b.new⟩]
      else []
    let same : List Opcode :=
      if b.size = 0 then [] else [⟨.equal, b.old, b.old + b.size, b.new, b.new + b.size⟩]
    change ++ same ++ opcodesFrom (b.old + b.size) (b.new + b.size) rest

/-- The steps that turn the old sequence into the new one. -/
def opcodes (old new : List String) : List Opcode :=
  opcodesFrom 0 0 (Pair.ofLists old new).blocks

end Diff
end Firewall
