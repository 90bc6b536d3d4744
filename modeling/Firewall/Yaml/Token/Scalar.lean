import Firewall.Yaml.Token.Lexer

/-!
# Scalar tokens

The three ways a YAML text writes a scalar.

- *Plain*: runs of characters up to a blank, a `:` before a blank, or, in flow
  context, a flow indicator.  A line break between runs folds to a blank, and
  each further empty line to a line feed; a plain scalar stops at a comment,
  at a document marker, and in block context at a line indented no deeper
  than its collection.  A plain scalar ends any simple key at its start; a
  line break inside it allows the next one.
- *Quoted*: between single quotes, where `''` is a quote, or double quotes,
  where a backslash escapes a character or a line break, or gives a code
  point in two, four or eight hexadecimal digits.  Line breaks fold as in
  plain scalars; an escaped line break adds nothing.
- *Block*: after `|` (literal) or `>` (folded), with an optional indentation
  indicator and chomping indicator `+` (keep the final line breaks) or `-`
  (strip them); by default one final line break is kept.  The lines are those
  indented at least as deep as the first non-empty one; folding joins two
  lines that start without blanks by a blank.
-/

namespace Firewall
namespace Yaml
namespace Lex

/-! ## Plain scalars -/

/-- The length of the run a plain scalar reads before it must stop. -/
def plainRun (flow : Bool) : List Char → Nat
  | [] => 0
  | c :: rest =>
    let next := rest.headD '\x00'
    if isBlankOrEnd c then 0
    else if c == ':' && (isBlankOrEnd next || (flow && ",[]\x7b\x7d".contains next)) then 0
    else if flow && ",?[]\x7b\x7d".contains c then 0
    else plainRun flow rest + 1

/-- The empty lines after a line break inside a plain scalar: the further
breaks, or none when a document marker follows one of them. -/
def plainBreaks : Nat → List String → LexM (Option (List String))
  | 0, acc => return some acc
  | fuel + 1, acc => do
    let c ← current
    if c == ' ' then
      forward 1
      plainBreaks fuel acc
    else if isBreak c then
      let b ← lineBreak
      if ← atSeparator then return none
      plainBreaks fuel (acc ++ [b])
    else return some acc

/-- The blanks after a run of a plain scalar, as the text they fold into:
none when a document marker ends the scalar. -/
def plainSpaces : LexM (Option (List String)) := do
  let blanks ← take (· == ' ')
  if isBreak (← current) then
    let first ← lineBreak
    allowKey true
    if ← atSeparator then return none
    match ← plainBreaks (← budget) [] with
    | none => return none
    | some breaks =>
      let fold := if first != "\n" then [first] else if breaks.isEmpty then [" "] else []
      return some (fold ++ breaks)
  else if blanks.isEmpty then return some []
  else return some [blanks]

/-- Read the runs of a plain scalar indented at least `indent`, given the
text so far, the blanks before the next run and where the scalar ends. -/
def plainRuns (indent : Int) : Nat → List String → List String → Place → LexM (String × Place)
  | 0, chunks, _, stop => return (String.join chunks, stop)
  | fuel + 1, chunks, spaces, stop => do
    if (← current) == '#' then return (String.join chunks, stop)
    let flow ← inFlow
    let n := plainRun flow (← get).cursor.rest
    if n == 0 then return (String.join chunks, stop)
    allowKey false
    let piece ← ahead n
    forward n
    let chunks := chunks ++ spaces ++ [piece]
    let stop ← here
    match ← plainSpaces with
    | none => return (String.join chunks, stop)
    | some [] => return (String.join chunks, stop)
    | some more =>
      if (← current) == '#' || (!flow && ((← column) : Int) < indent) then
        return (String.join chunks, stop)
      plainRuns indent fuel chunks more stop

/-- Read a plain scalar. -/
def plainScalar : LexM Token := do
  let start ← here
  let indent := (← get).indent + 1
  let (text, stop) ← plainRuns indent (← budget) [] [] start
  return ⟨.scalar text true, start, stop⟩

/-! ## Quoted scalars -/

/-- The character a one-letter escape stands for. -/
def escaped : Char → Option Char
  | '0' => some '\x00'
  | 'a' => some '\x07'
  | 'b' => some '\x08'
  | 't' => some '\t'
  | '\t' => some '\t'
  | 'n' => some '\n'
  | 'v' => some '\x0b'
  | 'f' => some '\x0c'
  | 'r' => some '\r'
  | 'e' => some '\x1b'
  | ' ' => some ' '
  | '"' => some '"'
  | '\\' => some '\\'
  | '/' => some '/'
  | 'N' => some '\x85'
  | '_' => some '\xa0'
  | 'L' => some '\u2028'
  | 'P' => some '\u2029'
  | _ => none

/-- The number of hexadecimal digits after an escape letter for a code point. -/
def escapeDigits : Char → Option Nat
  | 'x' => some 2
  | 'u' => some 4
  | 'U' => some 8
  | _ => none

/-- The value of a hexadecimal digit. -/
def hexDigit (c : Char) : Option Nat :=
  if '0' ≤ c && c ≤ '9' then some (c.toNat - '0'.toNat)
  else if 'a' ≤ c && c ≤ 'f' then some (c.toNat - 'a'.toNat + 10)
  else if 'A' ≤ c && c ≤ 'F' then some (c.toNat - 'A'.toNat + 10)
  else none

/-- The value of hexadecimal digits. -/
def hexValue (cs : List Char) : Nat :=
  cs.foldl (fun acc c => acc * 16 + (hexDigit c).getD 0) 0

/-- Whether a character ends a run of a quoted scalar. -/
def quotedStop (c : Char) : Bool :=
  c == Text.apostrophe || c == '"' || c == '\\' || isBlankOrEnd c

/-- Check that `n` hexadecimal digits follow, failing at the first that is none. -/
def hexDigits (start : Place) (n : Nat) : Nat → LexM Unit
  | 0 => pure ()
  | k + 1 => do
    let i := n - (k + 1)
    let c ← peek i
    if (hexDigit c).isNone then
      failWhile "while scanning a double-quoted scalar" start
        ("expected escape sequence of " ++ toString n ++ " hexadecimal numbers, but found " ++ shown c)
    hexDigits start n k

/-- The empty lines inside a quoted scalar after a line break. -/
def quotedBreaks (start : Place) : Nat → List String → LexM (List String)
  | 0, acc => return acc
  | fuel + 1, acc => do
    if ← atSeparator then
      failWhile "while scanning a quoted scalar" start "found unexpected document separator"
    skip (fun c => c == ' ' || c == '\t')
    if isBreak (← current) then
      let b ← lineBreak
      quotedBreaks start fuel (acc ++ [b])
    else return acc

/-- Read the characters of a quoted scalar up to a blank or its closing quote. -/
def quotedRuns (double : Bool) (start : Place) : Nat → List String → LexM (List String)
  | 0, acc => return acc
  | fuel + 1, acc => do
    let piece ← take (fun c => !quotedStop c)
    let acc := if piece.isEmpty then acc else acc ++ [piece]
    let c ← current
    let q := Text.apostrophe
    if !double && c == q && (← peek 1) == q then
      forward 2
      quotedRuns double start fuel (acc ++ [q.toString])
    else if (double && c == q) || (!double && (c == '"' || c == '\\')) then
      forward 1
      quotedRuns double start fuel (acc ++ [c.toString])
    else if double && c == '\\' then
      forward 1
      let e ← current
      match escaped e with
      | some r =>
        forward 1
        quotedRuns double start fuel (acc ++ [r.toString])
      | none =>
        match escapeDigits e with
        | some n =>
          forward 1
          hexDigits start n n
          let code := hexValue ((← get).cursor.rest.take n)
          if code > 0x10FFFF then throw (.plain .codePointRange)
          forward n
          quotedRuns double start fuel (acc ++ [Text.ofCodePoint code])
        | none =>
          if isBreak e then
            let _ ← lineBreak
            let breaks ← quotedBreaks start (← budget) []
            quotedRuns double start fuel (acc ++ breaks)
          else
            failWhile "while scanning a double-quoted scalar" start
              ("found unknown escape character " ++ shown e)
    else return acc

/-- Read the blanks inside a quoted scalar, as the text they fold into. -/
def quotedSpaces (start : Place) : LexM (List String) := do
  let blanks ← take (fun c => c == ' ' || c == '\t')
  let c ← current
  if c == '\x00' then
    failWhile "while scanning a quoted scalar" start "found unexpected end of stream"
  else if isBreak c then
    let first ← lineBreak
    let breaks ← quotedBreaks start (← budget) []
    let fold := if first != "\n" then [first] else if breaks.isEmpty then [" "] else []
    return fold ++ breaks
  else return [blanks]

/-- Read the parts of a quoted scalar until its closing quote. -/
def quotedParts (double : Bool) (quote : Char) (start : Place) : Nat → List String → LexM (List String)
  | 0, acc => return acc
  | fuel + 1, acc => do
    if (← current) == quote then return acc
    let spaces ← quotedSpaces start
    let more ← quotedRuns double start (← budget) []
    quotedParts double quote start fuel (acc ++ spaces ++ more)

/-- Read a quoted scalar, double-quoted or single-quoted. -/
def quotedScalar (double : Bool) : LexM Token := do
  let start ← here
  let quote ← current
  forward 1
  let first ← quotedRuns double start (← budget) []
  let parts ← quotedParts double quote start (← budget) first
  forward 1
  return ⟨.scalar (String.join parts) false, start, ← here⟩

/-! ## Block scalars -/

/-- Whether a block scalar keeps all final line breaks (`some true`), strips
them (`some false`) or keeps one (`none`). -/
abbrev Chomping := Option Bool

/-- Read the indicators of a block scalar: chomping and indentation, in
either order. -/
def blockIndicators (start : Place) : LexM (Chomping × Option Nat) := do
  let context := "while scanning a block scalar"
  let zero := "expected indentation indicator in the range 1-9, but found 0"
  let c ← current
  let (chomping, increment) ← if c == '+' || c == '-' then do
      forward 1
      let d ← current
      if d.isDigit then
        if d == '0' then failWhile context start zero
        forward 1
        pure (some (c == '+'), some (d.toNat - '0'.toNat))
      else pure (some (c == '+'), none)
    else if c.isDigit then do
      if c == '0' then failWhile context start zero
      forward 1
      let d ← current
      if d == '+' || d == '-' then
        forward 1
        pure (some (d == '+'), some (c.toNat - '0'.toNat))
      else pure (none, some (c.toNat - '0'.toNat))
    else pure (none, none)
  let e ← current
  if !isSpaceOrEnd e then
    failWhile context start ("expected chomping or indentation indicators, but found " ++ shown e)
  return (chomping, increment)

/-- Read the rest of the header line of a block scalar: blanks and a comment. -/
def blockHeaderEnd (start : Place) : LexM Unit := do
  skip (· == ' ')
  if (← current) == '#' then skip (fun c => !isBreakOrEnd c)
  let c ← current
  if !isBreakOrEnd c then
    failWhile "while scanning a block scalar" start
      ("expected a comment or a line break, but found " ++ shown c)
  let _ ← lineBreak

/-- Read the empty lines before the first line of a block scalar without an
indentation indicator: their breaks, the deepest column reached and where
the last break ended. -/
def blockIndentation : Nat → List String → Nat → Place → LexM (List String × Nat × Place)
  | 0, acc, deepest, stop => return (acc, deepest, stop)
  | fuel + 1, acc, deepest, stop => do
    let c ← current
    if c == ' ' then
      forward 1
      blockIndentation fuel acc (max deepest (← column)) stop
    else if isBreak c then
      let b ← lineBreak
      blockIndentation fuel (acc ++ [b]) deepest (← here)
    else return (acc, deepest, stop)

/-- Read the indentation of a line up to the column `indent`. -/
def indentTo (indent : Int) : LexM Unit := do
  let n ← run (· == ' ')
  let room := (indent - ((← column) : Int)).toNat
  forward (min n room)

/-- Read the breaks of empty lines inside a block scalar indented `indent`,
and where the last ended. -/
def blockBreaksFrom (indent : Int) : Nat → List String → Place → LexM (List String × Place)
  | 0, acc, stop => return (acc, stop)
  | fuel + 1, acc, stop => do
    if isBreak (← current) then
      let b ← lineBreak
      let stop ← here
      indentTo indent
      blockBreaksFrom indent fuel (acc ++ [b]) stop
    else return (acc, stop)

/-- Read the empty lines at the indentation of a block scalar. -/
def blockBreaks (indent : Int) : LexM (List String × Place) := do
  let stop ← here
  indentTo indent
  blockBreaksFrom indent (← budget) [] stop

/-- Whether a block scalar goes on with a line at the column `indent`. -/
def continues (indent : Int) : LexM Bool := do
  return ((← column) : Int) == indent && (← current) != '\x00'

/-- Read the lines of a block scalar, given the text so far, the last line
break read, the empty lines after it and where the scalar ends. -/
def blockLines (folded : Bool) (indent : Int) :
    Nat → List String → String → List String → Place → LexM (List String × String × List String × Place)
  | 0, chunks, last, breaks, stop => return (chunks, last, breaks, stop)
  | fuel + 1, chunks, last, breaks, stop => do
    if !(← continues indent) then return (chunks, last, breaks, stop)
    let leadingText := !(" \t".contains (← current))
    let line ← take (fun c => !isBreakOrEnd c)
    let chunks := chunks ++ breaks ++ [line]
    let lb ← lineBreak
    let (breaks, stop) ← blockBreaks indent
    if ← continues indent then
      let joins := folded && lb == "\n" && leadingText && !(" \t".contains (← current))
      let chunks := if joins then (if breaks.isEmpty then chunks ++ [" "] else chunks) else chunks ++ [lb]
      blockLines folded indent fuel chunks lb breaks stop
    else return (chunks, lb, breaks, stop)

/-- Read a block scalar, literal or folded. -/
def blockScalar (folded : Bool) : LexM Token := do
  let start ← here
  forward 1
  let (chomping, increment) ← blockIndicators start
  blockHeaderEnd start
  let least := max ((← get).indent + 1) 1
  let (breaks, indent, stop) ← match increment with
    | none => do
      let (breaks, deepest, stop) ← blockIndentation (← budget) [] 0 (← here)
      pure (breaks, max least (deepest : Int), stop)
    | some k => do
      let indent := least + k - 1
      let (breaks, stop) ← blockBreaks indent
      pure (breaks, indent, stop)
  let (chunks, last, breaks, stop) ← blockLines folded indent (← budget) [] "" breaks stop
  let kept := if chomping == some false then [] else [last]
  let tail := if chomping == some true then breaks else []
  return ⟨.scalar (String.join (chunks ++ kept ++ tail)) false, start, stop⟩

@[simp] theorem plainRun_nil (flow : Bool) : plainRun flow [] = 0 := rfl

end Lex
end Yaml
end Firewall
