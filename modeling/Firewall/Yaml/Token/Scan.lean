import Firewall.Yaml.Token.Property

/-!
# Splitting a YAML text into tokens

**Algorithm.**  Each step skips blanks, comments and line breaks (a line
break in block context allows a simple key), drops the possible simple keys
that can no longer be keys (a key must end on its line and within 1024
characters), closes the block collections indented deeper than the column
reached, and then reads one token by its first character.

A `:` that ends a possible simple key makes a key of it after the fact: a key
token goes into the queue where the simple key started, with a block mapping
start before it when the key opens a new, deeper block mapping.

**Handing on.**  Tokens are handed on one by one.  Before one is handed on,
more are read while the queue is empty or its first token could still be
preceded by a key token.  `Tokens.scan` gives the tokens handed on and,
when reading failed, the failure met when the next one was asked for:
reading is lazy, so a failure in the text shows only once a token beyond it
is needed.  `Tokens.scanUpTo` reads a text whose characters from a limit on
are refused: the refusal shows once a step of reading comes next to them.
-/

namespace Firewall
namespace Yaml
namespace Lex

/-! ## Simple keys -/

/-- The least token number of the possible simple keys. -/
def nextKeyNumber (keys : List (Int × SimpleKey)) : Option Nat :=
  keys.foldl (fun acc (_, k) => some (match acc with
    | none => k.tokenNumber
    | some m => min m k.tokenNumber)) none

/-- The failure of a required simple key that did not go on to a `:`. -/
def keyMissing (k : SimpleKey) : LexM α :=
  fail (some "while scanning a simple key") (some k.place) "could not find expected ':'"

/-- Drop the possible simple keys that can no longer be keys. -/
def dropStaleKeys : LexM Unit := do
  let s ← get
  for (level, k) in s.simpleKeys do
    let p := (← get).cursor.place
    if k.place.line != p.line || p.index - k.place.index > 1024 then
      if k.required then keyMissing k
      modify fun s => { s with simpleKeys := s.simpleKeys.filter (·.1 != level) }

/-- Drop the possible simple key of the current flow level. -/
def dropKey : LexM Unit := do
  let s ← get
  match s.simpleKeys.find? (·.1 == s.flowLevel) with
  | some (_, k) =>
    if k.required then keyMissing k
    modify fun s => { s with simpleKeys := s.simpleKeys.filter (·.1 != s.flowLevel) }
  | none => pure ()

/-- Note that a simple key may start here, if one may. -/
def saveKey : LexM Unit := do
  let s ← get
  let required := s.flowLevel == 0 && s.indent == (s.cursor.place.column : Int)
  if s.allowSimpleKey then
    dropKey
    let s ← get
    let k : SimpleKey := ⟨s.handed + s.queue.length, required, s.cursor.place⟩
    set { s with simpleKeys := s.simpleKeys ++ [(s.flowLevel, k)] }

/-! ## Indentation -/

/-- Close the block collections indented deeper than `col`. -/
def unwindFrom (col : Int) : Nat → LexM Unit
  | 0 => pure ()
  | fuel + 1 => do
    let s ← get
    if s.indent > col then
      match s.indents with
      | top :: rest =>
        let p := s.cursor.place
        set { s with indent := top, indents := rest, queue := s.queue ++ [Token.mk .blockEnd p p] }
        unwindFrom col fuel
      | [] => pure ()

/-- In block context, close the block collections indented deeper than `col`. -/
def unwind (col : Int) : LexM Unit := do
  let s ← get
  if s.flowLevel == 0 then unwindFrom col (s.indents.length + 1)

/-- Open a block collection at `col` if it is deeper than the current one. -/
def addIndent (col : Int) : LexM Bool := do
  let s ← get
  if s.indent < col then
    set { s with indents := s.indent :: s.indents, indent := col }
    return true
  else return false

/-! ## Tokens by their first character -/

/-- Read a token of one character. -/
def single (k : TokenKind) : LexM Unit := do
  let start ← here
  forward 1
  push k start (← here)

/-- The stream end. -/
def streamEnd : LexM Unit := do
  unwind (-1)
  dropKey
  allowKey false
  modify fun s => { s with simpleKeys := [] }
  let p ← here
  push .streamEnd p p
  modify fun s => { s with done := true }

/-- A directive. -/
def directive : LexM Unit := do
  unwind (-1)
  dropKey
  allowKey false
  let t ← directiveToken
  modify fun s => { s with queue := s.queue ++ [t] }

/-- A document start or end marker. -/
def documentMarker (k : TokenKind) : LexM Unit := do
  unwind (-1)
  dropKey
  allowKey false
  let start ← here
  forward 3
  push k start (← here)

/-- The start of a flow collection. -/
def flowStart (k : TokenKind) : LexM Unit := do
  saveKey
  modify fun s => { s with flowLevel := s.flowLevel + 1 }
  allowKey true
  single k

/-- The end of a flow collection. -/
def flowEnd (k : TokenKind) : LexM Unit := do
  dropKey
  modify fun s => { s with flowLevel := s.flowLevel - 1 }
  allowKey false
  single k

/-- A `,` between flow entries. -/
def flowEntry : LexM Unit := do
  allowKey true
  dropKey
  single .flowEntry

/-- Open a block collection here if needed, pushing its start token. -/
def openBlock (k : TokenKind) : LexM Unit := do
  if ← addIndent (← column) then
    let p ← here
    push k p p

/-- A `-` before a block sequence entry. -/
def blockEntry : LexM Unit := do
  if !(← inFlow) then
    if !(← get).allowSimpleKey then fail none none "sequence entries are not allowed here"
    openBlock .blockSequenceStart
  allowKey true
  dropKey
  single .blockEntry

/-- A `?` before a key. -/
def complexKey : LexM Unit := do
  let flow ← inFlow
  if !flow then
    if !(← get).allowSimpleKey then fail none none "mapping keys are not allowed here"
    openBlock .blockMappingStart
  allowKey !flow
  dropKey
  single .key

/-- Insert a token into the queue at the place of token number `n`. -/
def insertAt (n : Nat) (t : Token) : LexM Unit :=
  modify fun s => { s with queue := s.queue.insertIdx (n - s.handed) t }

/-- A `:` before a value: it makes a key of a possible simple key. -/
def valueIndicator : LexM Unit := do
  let s ← get
  let flow := s.flowLevel != 0
  match s.simpleKeys.find? (·.1 == s.flowLevel) with
  | some (_, k) =>
    set { s with simpleKeys := s.simpleKeys.filter (·.1 != s.flowLevel) }
    insertAt k.tokenNumber ⟨.key, k.place, k.place⟩
    if !flow then
      if ← addIndent k.place.column then
        insertAt k.tokenNumber ⟨.blockMappingStart, k.place, k.place⟩
    allowKey false
  | none =>
    if !flow then
      if !s.allowSimpleKey then fail none none "mapping values are not allowed here"
      openBlock .blockMappingStart
    allowKey !flow
    dropKey
  single .value

/-- A token that may start a simple key and forbids one right after it. -/
def keyStart (read : LexM Token) : LexM Unit := do
  saveKey
  allowKey false
  let t ← read
  modify fun s => { s with queue := s.queue ++ [t] }

/-- A block scalar. -/
def blockScalarToken (folded : Bool) : LexM Unit := do
  allowKey true
  dropKey
  let t ← blockScalar folded
  modify fun s => { s with queue := s.queue ++ [t] }

/-- Whether a document marker starts the line here. -/
def atMarker (m : String) : LexM Bool := do
  return (← column) == 0 && (← ahead 3) == m && isBlankOrEnd (← peek 3)

/-- Whether a plain scalar may start here. -/
def plainStarts : LexM Bool := do
  let c ← current
  let next ← peek 1
  let flow ← inFlow
  let indicator := "-?:,[]\x7b\x7d#&*!|>\"%@".contains c || c == Text.apostrophe || c == Char.ofNat 96
  return !(isBlankOrEnd c || indicator) ||
    (!isBlankOrEnd next && (c == '-' || (!flow && (c == '?' || c == ':'))))

/-- Skip blanks, comments and line breaks up to the next token. -/
def toNextToken : Nat → LexM Unit
  | 0 => pure ()
  | fuel + 1 => do
    skip (· == ' ')
    if (← current) == '#' then skip (fun c => !isBreakOrEnd c)
    let b ← lineBreak
    if !b.isEmpty then
      if !(← inFlow) then allowKey true
      toNextToken fuel

/-- Read more tokens: one, with the block ends and keys it brings. -/
def fetchMore : LexM Unit := do
  let s ← get
  if s.cursor.place.index == 0 && s.cursor.peek 0 == '\uFEFF' then forward 1
  toNextToken (← budget)
  dropStaleKeys
  unwind (← column)
  let c ← current
  let flow ← inFlow
  let blankNext := isBlankOrEnd (← peek 1)
  if c == '\x00' then streamEnd
  else if c == '%' && (← column) == 0 then directive
  else if c == '-' && (← atMarker "---") then documentMarker .documentStart
  else if c == '.' && (← atMarker "...") then documentMarker .documentEnd
  else if c == '[' then flowStart .flowSequenceStart
  else if c == '\x7b' then flowStart .flowMappingStart
  else if c == ']' then flowEnd .flowSequenceEnd
  else if c == '\x7d' then flowEnd .flowMappingEnd
  else if c == ',' then flowEntry
  else if c == '-' && blankNext then blockEntry
  else if c == '?' && (flow || blankNext) then complexKey
  else if c == ':' && (flow || blankNext) then valueIndicator
  else if c == '*' then keyStart (anchorToken true)
  else if c == '&' then keyStart (anchorToken false)
  else if c == '!' then keyStart tagToken
  else if c == '|' && !flow then blockScalarToken false
  else if c == '>' && !flow then blockScalarToken true
  else if c == Text.apostrophe then keyStart (quotedScalar false)
  else if c == '"' then keyStart (quotedScalar true)
  else if ← plainStarts then keyStart plainScalar
  else
    fail (some "while scanning for the next token") none
      ("found character " ++ shown c ++ " that cannot start any token")

/-- Whether more tokens must be read before the first one is handed on. -/
def needMore : LexM Bool := do
  let s ← get
  if s.done then return false
  if s.queue.isEmpty then return true
  dropStaleKeys
  let s ← get
  return nextKeyNumber s.simpleKeys == some s.handed

end Lex

/-- Whether a step of reading that reached character `index` read into the
characters from `limit` on, which it needs once it is next to them. -/
def reaches (limit : Option (Nat × Fault)) (index : Nat) : Option Fault :=
  match limit with
  | some (n, f) => if index + 1 ≥ n then some f else none
  | none => none

/-- The failure of a step of reading: the refusal of the characters from the
limit on, when the step failed among them, or the step's own. -/
def refusalOr (limit : Option (Nat × Fault)) : Problem → Problem
  | .marked m =>
    match reaches limit m.place.index with
    | some f => .plain f
    | none => .marked m
  | p => p

/-- Hand on tokens until the stream end, reading more as needed.  Reading
into the characters from `limit` on (if given) meets its fault. -/
def Lexer.deliver (limit : Option (Nat × Fault)) : Nat → Lexer → Array Token → Tokens
  | 0, _, acc => ⟨acc, none⟩
  | fuel + 1, s, acc =>
    match Lex.needMore.run s with
    | .error p => ⟨acc, some p⟩
    | .ok (true, s) =>
      match Lex.fetchMore.run s with
      | .error p => ⟨acc, some (refusalOr limit p)⟩
      | .ok ((), s) =>
        match reaches limit s.cursor.place.index with
        | some f => ⟨acc, some (.plain f)⟩
        | none => Lexer.deliver limit fuel s acc
    | .ok (false, s) =>
      match s.queue with
      | [] => ⟨acc, none⟩
      | t :: rest => Lexer.deliver limit fuel { s with queue := rest, handed := s.handed + 1 } (acc.push t)

/-- The tokens of a text, as handed on, and the failure after them; reading
into the characters from `limit` on (if given) meets its fault. -/
def Tokens.scanUpTo (limit : Option (Nat × Fault)) (text : String) : Tokens :=
  Lexer.deliver limit (8 * (text.length + 2)) (Lexer.start text) #[]

/-- The tokens of a text, as handed on, and the failure after them. -/
def Tokens.scan (text : String) : Tokens := Tokens.scanUpTo none text

@[simp] theorem nextKeyNumber_nil : Lex.nextKeyNumber [] = none := rfl

end Yaml
end Firewall
