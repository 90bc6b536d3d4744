import Firewall.Fault

/-!
# YAML source text

**Input.**  A document is a name and a text.  A document given as text shows,
at every mark of a failure, a snippet of the line with a caret under the
column; a document read from a file shows none, and its line ends were read
in text mode: a carriage return, alone or before a line feed, became a line
feed.

**Reading.**  A `Cursor` holds what is left of the text and the `Place`
reached: the characters read so far, the line and the column, each counted
from zero.  A line ends after a line feed, a carriage return that no line feed
follows, a next-line character or a line or paragraph separator; a byte order
mark takes no column.  Past the end the cursor shows the character zero, which
no document holds: a document may only hold tab, line feed, carriage return,
the printable ASCII characters, next-line, and the code points from `0xA0` on
other than surrogates, `0xFFFE` and `0xFFFF`.

A document given as text is checked for refused characters before reading
starts.  A file is checked as it is read: its first `firstRead` characters
before reading starts, then `laterRead` characters at a time when reading
comes next to them.

**Failures.**  A `Problem` is either a marked failure of one stage of reading,
with an optional context and its place, or a plain fault.  `Document.fault`
names the places after the document.
-/

namespace Firewall
namespace Yaml

/-- A place in a text: characters read, line and column, all from zero. -/
structure Place where
  index : Nat
  line : Nat
  column : Nat
deriving Repr, DecidableEq, Inhabited

/-- A marked failure of one stage: what was being read and where, what went
wrong and where. -/
structure Marked where
  stage : YamlStage
  context : Option String
  contextPlace : Option Place
  problem : String
  place : Place
deriving Repr, DecidableEq, Inhabited

/-- A failure while reading a document. -/
inductive Problem where
  | marked (m : Marked)
  | plain (f : Fault)
deriving Repr, DecidableEq, Inhabited

/-- Characters that end a line. -/
def isBreak (c : Char) : Bool :=
  c == '\r' || c == '\n' || c == '\x85' || c == '\u2028' || c == '\u2029'

/-- A line end or the end of the text. -/
def isBreakOrEnd (c : Char) : Bool := c == '\x00' || isBreak c

/-- A blank, a line end or the end of the text. -/
def isBlankOrEnd (c : Char) : Bool := c == ' ' || c == '\t' || isBreakOrEnd c

/-- A space, a line end or the end of the text (a tab does not count). -/
def isSpaceOrEnd (c : Char) : Bool := c == ' ' || isBreakOrEnd c

/-- The code points a document may hold. -/
def allowed (n : Nat) : Bool :=
  n == 0x9 || n == 0xA || n == 0xD || (0x20 ≤ n && n ≤ 0x7E) || n == 0x85 ||
  (0xA0 ≤ n && n ≤ 0xD7FF) || (0xE000 ≤ n && n ≤ 0xFFFD) || 0x10000 ≤ n

/-- The position and code point of the first code point a text may not hold. -/
def firstRefused (ns : List Nat) : Option (Nat × Nat) :=
  match ns.findIdx? (fun n => !allowed n) with
  | some i => ns[i]?.map (i, ·)
  | none => none

/-- Read line ends in text mode: a carriage return, alone or before a line
feed, becomes one line feed. -/
def textModeLines : List Char → List Char
  | [] => []
  | '\r' :: '\n' :: rest => '\n' :: textModeLines rest
  | '\r' :: rest => '\n' :: textModeLines rest
  | c :: rest => c :: textModeLines rest

/-- What is left of a text, and the place reached. -/
structure Cursor where
  rest : List Char
  place : Place
deriving Repr, Inhabited

namespace Cursor

/-- A cursor at the start of a text. -/
def ofText (s : String) : Cursor := ⟨s.toList, ⟨0, 0, 0⟩⟩

/-- The character `k` places ahead; zero past the end. -/
def peek (c : Cursor) (k : Nat) : Char := c.rest.getD k '\x00'

/-- The next `n` characters, fewer at the end. -/
def ahead (c : Cursor) (n : Nat) : String := String.ofList (c.rest.take n)

/-- Read one character. -/
def step (c : Cursor) : Cursor :=
  match c.rest with
  | [] => c
  | ch :: r =>
    let ends := ch == '\n' || ch == '\x85' || ch == '\u2028' || ch == '\u2029' ||
      (ch == '\r' && r.headD '\x00' != '\n')
    let p := c.place
    ⟨r, ⟨p.index + 1, if ends then p.line + 1 else p.line,
      if ends then 0 else if ch == '\uFEFF' then p.column else p.column + 1⟩⟩

/-- Read `n` characters. -/
def forward : Nat → Cursor → Cursor
  | 0, c => c
  | n + 1, c => forward n c.step

/-- The length of the run of characters ahead that satisfy `p`. -/
def run (c : Cursor) (p : Char → Bool) : Nat := (c.rest.takeWhile p).length

@[simp] theorem forward_zero (c : Cursor) : forward 0 c = c := rfl

theorem step_index (ch : Char) (r : List Char) (p : Place) :
    (step ⟨ch :: r, p⟩).place.index = p.index + 1 := rfl

end Cursor

/-- A document: its name, its text, and whether marks show snippets.  It is
read in `Text.scanForm`, one character per code point. -/
structure Document where
  name : String
  text : String
  snippets : Bool
deriving Repr, Inhabited

/-- How far a snippet reaches on either side of its column. -/
def snippetReach : Nat := 36

/-- Where a snippet starts: back from `p` to the start of the line, and
whether it had to stop short, `k` characters back so far. -/
def snippetStart (buf : Array Char) (p : Nat) : Nat → Nat → Nat × Bool
  | 0, k => (p - k, false)
  | fuel + 1, k =>
    let start := p - k
    if start > 0 && !isBreakOrEnd (buf.getD (start - 1) '\x00') then
      if k + 1 > snippetReach then (p - (k + 1) + 5, true) else snippetStart buf p fuel (k + 1)
    else (start, false)

/-- Where a snippet ends: on from `p` to the end of the line, and whether it
had to stop short. -/
def snippetEnd (buf : Array Char) (p : Nat) : Nat → Nat → Nat × Bool
  | 0, k => (p + k, false)
  | fuel + 1, k =>
    let stop := p + k
    if stop < buf.size && !isBreakOrEnd (buf.getD stop '\x00') then
      if k + 1 > snippetReach then (p + (k + 1) - 5, true) else snippetEnd buf p fuel (k + 1)
    else (stop, false)

/-- The snippet of a text at a character position: the line around it, cut
with ` ... ` where it reaches too far, and a caret under the position, all
indented by four. -/
def snippet (text : String) (p : Nat) : String :=
  let buf := text.toList.toArray.push '\x00'
  let (start, cutHead) := snippetStart buf p (snippetReach + 2) 0
  let (stop, cutTail) := snippetEnd buf p (snippetReach + 2) 0
  let head := if cutHead then " ... " else ""
  let tail := if cutTail then " ... " else ""
  let body := Text.encode (String.ofList ((buf.toList.drop start).take (stop - start)))
  "    " ++ head ++ body ++ tail ++ "\n" ++
    String.ofList (List.replicate (4 + (p - start) + head.length) ' ') ++ "^"

namespace Document

/-- A document given as text. -/
def ofText (text : String) : Document := ⟨"<unicode string>", text, true⟩

/-- A document read from a file in text mode. -/
def ofFile (name raw : String) : Document := ⟨name, String.ofList (textModeLines raw.toList), false⟩

/-- The text of the document with one character per code point. -/
def scanText (d : Document) : String := Text.scanForm d.text

/-- The mark of a place in the document. -/
def mark (d : Document) (p : Place) : Mark :=
  ⟨d.name, p.line, p.column, if d.snippets then some (snippet d.scanText p.index) else none⟩

/-- The fault of a problem, its places named after the document. -/
def fault (d : Document) : Problem → Fault
  | .marked m => .yaml ⟨m.stage, m.context, m.contextPlace.map d.mark, m.problem, d.mark m.place⟩
  | .plain f => f

/-- How many characters of a file are checked before reading starts. -/
def firstRead : Nat := 8192

/-- How many characters of a file each later read checks. -/
def laterRead : Nat := 4096

/-- The first character the document may not hold, if any: the index of the
first character checked with it and the fault.  A document given as text is
checked all at once; a file is checked as it is read, first `firstRead`
characters, then `laterRead` at a time. -/
def refusal (d : Document) : Option (Nat × Fault) :=
  (firstRefused (Text.codePoints d.text)).map fun (i, n) =>
    let checkedFrom :=
      if d.snippets || i < firstRead then 0 else firstRead + (i - firstRead) / laterRead * laterRead
    (checkedFrom, .unacceptableChar n d.name i)

end Document

@[simp] theorem textModeLines_nil : textModeLines [] = [] := rfl

end Yaml
end Firewall
