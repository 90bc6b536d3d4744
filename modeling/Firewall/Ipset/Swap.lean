import Firewall.Text.Lines
import Firewall.Value.Basic
import Firewall.Fault

/-!
# Replacing ip sets atomically

An ip set that already exists in the kernel cannot be recreated in place.
The script that loads a new ipset configuration therefore builds each such set
under a temporary name, `set.word`, swaps it with the live set and destroys
the temporary one; sets that the new configuration no longer has are flushed
and then destroyed, in two passes, so that list sets never refer to a
destroyed set.

The set of a script line is its second word.  A fresh temporary name is drawn
whenever a line's set differs from the previous line's, and it replaces the
set's earlier temporary name; a name that already exists is drawn again.  The
line is changed by replacing the first occurrence of the set's name in it,
wherever that is.

Temporary words come from a supply: a given list first, then `aaa`, `aab`,
up to `zzz`.
-/

namespace Firewall
namespace Ipset

/-- A supply of temporary words: the given ones, then the generated ones from
position `next` on. -/
structure Words where
  given : List String
  next : Nat
deriving Repr, DecidableEq, Inhabited

namespace Words

/-- The generated word at a position: three lowercase letters, counting up. -/
def generated (n : Nat) : String :=
  let letter := fun k => Char.ofNat ('a'.toNat + k % 26)
  String.ofList [letter (n / 676), letter (n / 26), letter n]

/-- A supply that starts with the given words. -/
def ofList (given : List String) : Words := ⟨given, 0⟩

/-- The next word and the rest of the supply. -/
def draw (w : Words) : Except Fault (String × Words) :=
  match w.given with
  | x :: rest => .ok (x, ⟨rest, w.next⟩)
  | [] => if w.next < 17576 then .ok (generated w.next, ⟨[], w.next + 1⟩) else .error .wordsExhausted

/-- How many words a supply can still give. -/
def remaining (w : Words) : Nat := w.given.length + (17576 - w.next)

end Words

/-- A computation that draws temporary words; the words drawn stay drawn when
it fails. -/
abbrev Drawing := ExceptT Fault (StateM Words)

/-- Draw the next word. -/
def drawWord : Drawing String := do
  match (← get).draw with
  | .ok (x, w) =>
    set w
    pure x
  | .error f => throw f

/-- Draw temporary names for a set until one is not taken; `fuel` bounds the
number of draws. -/
def freshName (taken : List String) (set : String) : Nat → Drawing String
  | 0 => throw .wordsExhausted
  | fuel + 1 => do
    let name := set ++ "." ++ (← drawWord)
    if taken.contains name then freshName taken set fuel else pure name

/-- The set that a script line is about: its second word. -/
def setOf (line : String) : Except Fault String :=
  match Text.words line with
  | _ :: name :: _ => .ok name
  | _ => .error .indexRange

/-- Replace the first occurrence of `old` in a character list by `new`. -/
def replaceFirstIn (old new : List Char) : List Char → List Char
  | [] => []
  | c :: cs =>
    if old.isPrefixOf (c :: cs) then new ++ (c :: cs).drop old.length
    else c :: replaceFirstIn old new cs

/-- Replace the first occurrence of `old` in a text by `new`. -/
def replaceFirst (s old new : String) : String :=
  String.ofList (replaceFirstIn old.toList new.toList s.toList)

/-- The progress of moving a script onto temporary sets: lines written, the
temporary name of each live set so far (in order of first use), and the
previous line's set. -/
structure Staging where
  lines : List String
  temporary : List (String × String)
  previous : Option String

/-- Set the temporary name of a set, keeping its place if it had one. -/
def setTemporary (kvs : List (String × String)) (k v : String) : List (String × String) :=
  if kvs.any (·.1 == k) then kvs.map (fun e => if e.1 == k then (k, v) else e) else kvs ++ [(k, v)]

/-- Move one line of the script onto the temporary sets. -/
def Staging.step (live : List String) (r : Staging) (line : String) : Drawing Staging := do
  let set ← match setOf line with
    | .ok s => pure s
    | .error f => throw f
  if live.contains set then
    let temporary ←
      if r.previous == some set then pure r.temporary
      else do
        let name ← freshName live set ((← get).remaining + 1)
        pure (setTemporary r.temporary set name)
    let tmp := ((temporary.find? (·.1 == set)).map (·.2)).getD set
    pure ⟨r.lines ++ [replaceFirst line set tmp], temporary, some set⟩
  else pure ⟨r.lines ++ [line], r.temporary, some set⟩

/-- The script that loads the given ipset script over the live sets. -/
def swapScript (live : List String) (script : List String) : Drawing (List String) := do
  let r ← script.foldlM (Staging.step live) ⟨[], [], none⟩
  let swaps := r.temporary.flatMap fun (set, tmp) => ["swap " ++ tmp ++ " " ++ set, "destroy " ++ tmp]
  let stale := live.filter fun s => !r.temporary.any (·.1 == s)
  pure (r.lines ++ swaps ++ stale.map ("flush " ++ ·) ++ stale.map ("destroy " ++ ·))

/-- Run a drawing on a supply: its outcome and the supply left. -/
def Drawing.run {α : Type} (d : Drawing α) (w : Words) : Except Fault α × Words :=
  (ExceptT.run d).run w

@[simp] theorem generated_zero : Words.generated 0 = "aaa" := by
  simp [Words.generated]

end Ipset
end Firewall
