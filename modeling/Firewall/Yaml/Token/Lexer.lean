import Firewall.Yaml.Token

/-!
# The state of splitting a YAML text into tokens

**State.**  Besides the cursor, splitting keeps

- the flow level: how many flow collections are open (a stray closing
  bracket takes it below zero, and the text is then read as flow);
- the block indentation: the column of the innermost block collection, `-1`
  outside all, with the columns of the enclosing ones;
- the queue of tokens made but not yet handed on, and how many were handed on;
- whether a simple key may start here, and the possible simple keys: per flow
  level, the place where a key without `?` may have started and the number
  its token will have if a `:` follows.  A possible key in block context at
  the column of the indentation is *required*: the line must go on to a `:`.

`LexM` runs a step of splitting on this state and may fail with a
`Problem`.  `Lexer.budget` bounds every loop that reads characters: none reads
more than the text holds.
-/

namespace Firewall
namespace Yaml

/-- A place where a key without `?` may have started. -/
structure SimpleKey where
  tokenNumber : Nat
  required : Bool
  place : Place
deriving Repr, DecidableEq, Inhabited

/-- The state of splitting a text into tokens. -/
structure Lexer where
  cursor : Cursor
  budget : Nat
  done : Bool
  flowLevel : Int
  queue : List Token
  handed : Nat
  indent : Int
  indents : List Int
  allowSimpleKey : Bool
  simpleKeys : List (Int × SimpleKey)
deriving Repr, Inhabited

/-- A step of splitting a text into tokens. -/
abbrev LexM := StateT Lexer (Except Problem)

namespace Lexer

/-- The state at the start of a text: the stream start is made. -/
def start (text : String) : Lexer :=
  let c := Cursor.ofText text
  ⟨c, text.length + 1, false, 0, [⟨.streamStart, c.place, c.place⟩], 0, -1, [], true, []⟩

end Lexer

namespace Lex

/-- The character `k` places ahead. -/
def peek (k : Nat) : LexM Char := do return (← get).cursor.peek k

/-- The next character. -/
def current : LexM Char := peek 0

/-- The next `n` characters, written as a text (`Text.encode`): the document
is read one character per code point. -/
def ahead (n : Nat) : LexM String := do return Text.encode ((← get).cursor.ahead n)

/-- Read `n` characters. -/
def forward (n : Nat) : LexM Unit := modify fun s => { s with cursor := s.cursor.forward n }

/-- The place reached. -/
def here : LexM Place := do return (← get).cursor.place

/-- The column reached. -/
def column : LexM Nat := do return (← get).cursor.place.column

/-- The length of the run of characters ahead that satisfy `p`. -/
def run (p : Char → Bool) : LexM Nat := do return (← get).cursor.run p

/-- Read the run of characters ahead that satisfy `p`. -/
def skip (p : Char → Bool) : LexM Unit := do forward (← run p)

/-- Read the run of characters ahead that satisfy `p`, giving its text. -/
def take (p : Char → Bool) : LexM String := do
  let n ← run p
  let t ← ahead n
  forward n
  return t

/-- The bound on loops that read characters. -/
def budget : LexM Nat := do return (← get).budget

/-- Whether a flow collection is open. -/
def inFlow : LexM Bool := do return (← get).flowLevel != 0

/-- Queue a token. -/
def push (k : TokenKind) (start stop : Place) : LexM Unit :=
  modify fun s => { s with queue := s.queue ++ [⟨k, start, stop⟩] }

/-- Allow or forbid a simple key here. -/
def allowKey (b : Bool) : LexM Unit := modify fun s => { s with allowSimpleKey := b }

/-- Fail here, with the context and where it began. -/
def fail (context : Option String) (contextPlace : Option Place) (problem : String) : LexM α := do
  throw (.marked ⟨.scanner, context, contextPlace, problem, ← here⟩)

/-- Fail here while reading something begun at `start`. -/
def failWhile (context : String) (start : Place) (problem : String) : LexM α :=
  fail (some context) (some start) problem

/-- Read a line break: a carriage return with or without a line feed, a line
feed and a next-line character all read as a line feed, the line and
paragraph separators as themselves; anything else is no break, the empty text. -/
def lineBreak : LexM String := do
  let c ← current
  if c == '\r' || c == '\n' || c == '\x85' then
    if c == '\r' && (← peek 1) == '\n' then forward 2 else forward 1
    return "\n"
  else if c == '\u2028' || c == '\u2029' then
    forward 1
    return c.toString
  else return ""

/-- Whether a document marker, `---` or `...` followed by a blank, is ahead. -/
def atSeparator : LexM Bool := do
  let p ← ahead 3
  return (p == "---" || p == "...") && isBlankOrEnd (← peek 3)

/-- The quoted form of a character, as failures show it. -/
def shown (c : Char) : String := Text.quote (Text.encode c.toString)

end Lex

@[simp] theorem Lexer.start_done (t : String) : (Lexer.start t).done = false := rfl

end Yaml
end Firewall
