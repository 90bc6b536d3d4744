import Firewall.Yaml.Token.Scan

/-!
# YAML events

**Events.**  A document's tokens describe a tree; its events walk it in
order: stream and document starts and ends, aliases, scalars with their
anchor and tag, and the starts (with anchor and tag) and ends of sequences
and mappings.  A scalar remembers whether it was plain and untagged, or
tagged `!`, which lets its type be guessed from its text.

**Parsing.**  `Events.parse` reads tokens with a stack of what to read next
after the current node: the grammar of block collections (entries `- x`, keys
`? k`, values `: v`, with indentless sequences as mapping values), of flow
collections (`[a, b]`, `{k: v}`, with single pairs `[k: v]` inside flow
sequences), of documents (implicit, or explicit after `---` and directives),
and of node properties.  Missing nodes are empty plain scalars.  As with
tokens, events are made lazily: `Events.failure` is what asking for the event
after the last one meets.
-/

namespace Firewall
namespace Yaml

/-- An event with what it carries. -/
inductive EventKind where
  | streamStart
  | streamEnd
  | documentStart (explicit : Bool)
  | documentEnd (explicit : Bool)
  | alias (anchor : String)
  | scalar (anchor : Option String) (tag : Option String) (guessed : Bool) (text : String)
  | sequenceStart (anchor : Option String) (tag : Option String)
  | sequenceEnd
  | mappingStart (anchor : Option String) (tag : Option String)
  | mappingEnd
deriving Repr, DecidableEq, Inhabited

/-- An event and the places where it starts and stops. -/
structure Event where
  kind : EventKind
  start : Place
  stop : Place
deriving Repr, DecidableEq, Inhabited

/-- The events of a text, in order, and the failure met after them. -/
structure Events where
  items : Array Event
  failure : Option Problem
deriving Repr, Inhabited

/-- What to read next. -/
inductive Expect where
  | streamStart
  | implicitDocumentStart
  | documentStart
  | documentEnd
  | documentContent
  | blockNode
  | blockSequenceFirstEntry
  | blockSequenceEntry
  | indentlessSequenceEntry
  | blockMappingFirstKey
  | blockMappingKey
  | blockMappingValue
  | flowSequenceFirstEntry
  | flowSequenceEntry (first : Bool)
  | flowSequencePairKey
  | flowSequencePairValue
  | flowSequencePairEnd
  | flowMappingFirstKey
  | flowMappingKey (first : Bool)
  | flowMappingValue
  | flowMappingEmptyValue
  | finished
deriving Repr, DecidableEq, Inhabited

/-- The state of parsing: the tokens and how many were read, what to read
next, what to read after the open nodes, where the open collections started,
and the tag handles of the document. -/
structure Parser where
  tokens : Tokens
  pos : Nat
  expect : Expect
  stack : List Expect
  marks : List Place
  handles : List (String × String)
deriving Repr, Inhabited

/-- A step of parsing. -/
abbrev ParseM := StateT Parser (Except Problem)

namespace Parse

/-- The tag handles every document has. -/
def defaultHandles : List (String × String) := [("!", "!"), ("!!", "tag:yaml.org,2002:")]

/-- The next token. -/
def peekToken : ParseM Token := do
  let s ← get
  match s.tokens.items[s.pos]? with
  | some t => return t
  | none =>
    match s.tokens.failure with
    | some p => throw p
    | none => return (s.tokens.items.back?.getD default)

/-- Read the next token. -/
def getToken : ParseM Token := do
  let t ← peekToken
  modify fun s => { s with pos := s.pos + 1 }
  return t

/-- Whether the next token is of one of the sorts. -/
def check (sorts : List TokenSort) : ParseM Bool := do
  return sorts.contains (← peekToken).kind.sort

/-- Go on with `e`. -/
def next (e : Expect) : ParseM Unit := modify fun s => { s with expect := e }

/-- Remember `e` for after the node about to be read. -/
def remember (e : Expect) : ParseM Unit := modify fun s => { s with stack := e :: s.stack }

/-- Go on with what was remembered. -/
def resume : ParseM Unit :=
  modify fun s => match s.stack with
    | e :: rest => { s with expect := e, stack := rest }
    | [] => { s with expect := .finished }

/-- Note where a collection starts. -/
def openAt (p : Place) : ParseM Unit := modify fun s => { s with marks := p :: s.marks }

/-- Forget where the innermost collection starts. -/
def closeMark : ParseM Unit := modify fun s => { s with marks := s.marks.drop 1 }

/-- Where the innermost collection starts. -/
def openMark : ParseM Place := do return (← get).marks.headD default

/-- Fail, marked. -/
def fail (context : Option String) (contextPlace : Option Place) (problem : String) (p : Place) :
    ParseM α :=
  throw (.marked ⟨.parser, context, contextPlace, problem, p⟩)

/-- An empty plain scalar at a place. -/
def emptyScalar (p : Place) : Event := ⟨.scalar none none true "", p, p⟩

/-- Read the directives before an explicit document. -/
def directives (fuel : Nat) : ParseM Unit := do
  let rec go : Nat → Option (Nat × Nat) → List (String × String) → ParseM (List (String × String))
    | 0, _, hs => return hs
    | fuel + 1, version, hs => do
      if !(← check [.directive]) then return hs
      let t ← getToken
      match t.kind with
      | .directive "YAML" (.version major minor) =>
        if version.isSome then fail none none "found duplicate YAML directive" t.start
        if major != 1 then
          fail none none "found incompatible YAML document (version 1.* is required)" t.start
        go fuel (some (major, minor)) hs
      | .directive "TAG" (.tagPrefix h pre) =>
        if hs.any (·.1 == h) then fail none none ("duplicate tag handle " ++ Text.quote h) t.start
        go fuel version (hs ++ [(h, pre)])
      | _ => go fuel version hs
  let hs ← go fuel none []
  let missing := defaultHandles.filter fun (h, _) => !hs.any (·.1 == h)
  modify fun s => { s with handles := hs ++ missing }

/-- Read a node: an alias, or properties and content.  `block` allows block
collections; `indentless` allows a sequence without indentation. -/
def node (block indentless : Bool) : ParseM Event := do
  if ← check [.alias] then
    let t ← getToken
    resume
    match t.kind with
    | .alias name => return ⟨.alias name, t.start, t.stop⟩
    | _ => return ⟨.alias "", t.start, t.stop⟩
  let first ← peekToken
  let (anchor, tagged, start, stop, tagPlace) ← match first.kind with
    | .anchor a => do
      let _ ← getToken
      let t ← peekToken
      match t.kind with
      | .tag h s => do
        let _ ← getToken
        pure (some a, some (h, s), some first.start, t.stop, some t.start)
      | _ => pure (some a, none, some first.start, first.stop, none)
    | .tag h s => do
      let _ ← getToken
      let t ← peekToken
      match t.kind with
      | .anchor a => do
        let _ ← getToken
        pure (some a, some (h, s), some first.start, t.stop, some first.start)
      | _ => pure (none, some (h, s), some first.start, first.stop, some first.start)
    | _ => pure (none, none, none, first.start, none)
  let tag ← match tagged with
    | none => pure none
    | some (none, suffix) => pure (some suffix)
    | some (some h, suffix) => do
      match (← get).handles.find? (·.1 == h) with
      | some (_, pre) => pure (some (pre ++ suffix))
      | none =>
        fail (some "while parsing a node") start ("found undefined tag handle " ++ Text.quote h)
          (tagPlace.getD default)
  let start ← match start with
    | some p => pure p
    | none => (·.start) <$> peekToken
  let stop := if tagged.isNone && anchor.isNone then start else stop
  let nonSpecific := tag.isNone || tag == some "!"
  let t ← peekToken
  if indentless && t.kind.sort == .blockEntry then
    next .indentlessSequenceEntry
    return ⟨.sequenceStart anchor tag, start, t.stop⟩
  match t.kind with
  | .scalar text plain =>
    let _ ← getToken
    resume
    return ⟨.scalar anchor tag ((plain && tag.isNone) || tag == some "!") text, start, t.stop⟩
  | .flowSequenceStart =>
    next .flowSequenceFirstEntry
    return ⟨.sequenceStart anchor tag, start, t.stop⟩
  | .flowMappingStart =>
    next .flowMappingFirstKey
    return ⟨.mappingStart anchor tag, start, t.stop⟩
  | .blockSequenceStart =>
    if block then
      next .blockSequenceFirstEntry
      return ⟨.sequenceStart anchor tag, start, t.start⟩
    else absent anchor tag nonSpecific start stop block t
  | .blockMappingStart =>
    if block then
      next .blockMappingFirstKey
      return ⟨.mappingStart anchor tag, start, t.start⟩
    else absent anchor tag nonSpecific start stop block t
  | _ => absent anchor tag nonSpecific start stop block t
where
  /-- A node without content: an empty scalar if it has properties. -/
  absent (anchor tag : Option String) (nonSpecific : Bool) (start stop : Place) (block : Bool) (t : Token) :
      ParseM Event := do
    if anchor.isSome || tag.isSome then
      resume
      return ⟨.scalar anchor tag nonSpecific "", start, stop⟩
    let kind := if block then "block" else "flow"
    fail (some ("while parsing a " ++ kind ++ " node")) (some start)
      ("expected the node content, but found " ++ Text.quote t.kind.sort.id) t.start

/-- Read the next event. -/
def step : ParseM (Option Event) := do
  match (← get).expect with
  | .finished => return none
  | .streamStart =>
    let t ← getToken
    next .implicitDocumentStart
    return some ⟨.streamStart, t.start, t.stop⟩
  | .implicitDocumentStart =>
    if ← check [.directive, .documentStart, .streamEnd] then documentStart
    else
      modify fun s => { s with handles := defaultHandles }
      let t ← peekToken
      remember .documentEnd
      next .blockNode
      return some ⟨.documentStart false, t.start, t.start⟩
  | .documentStart => documentStart
  | .documentEnd =>
    let t ← peekToken
    if t.kind.sort == .documentEnd then
      let _ ← getToken
      next .documentStart
      return some ⟨.documentEnd true, t.start, t.stop⟩
    next .documentStart
    return some ⟨.documentEnd false, t.start, t.start⟩
  | .documentContent =>
    if ← check [.directive, .documentStart, .documentEnd, .streamEnd] then
      let t ← peekToken
      resume
      return some (emptyScalar t.start)
    some <$> node true false
  | .blockNode => some <$> node true false
  | .blockSequenceFirstEntry =>
    let t ← getToken
    openAt t.start
    blockSequenceEntry
  | .blockSequenceEntry => blockSequenceEntry
  | .indentlessSequenceEntry =>
    let t ← peekToken
    if t.kind.sort == .blockEntry then
      let _ ← getToken
      if ← check [.blockEntry, .key, .value, .blockEnd] then
        next .indentlessSequenceEntry
        return some (emptyScalar t.stop)
      remember .indentlessSequenceEntry
      return some (← node true false)
    resume
    return some ⟨.sequenceEnd, t.start, t.start⟩
  | .blockMappingFirstKey =>
    let t ← getToken
    openAt t.start
    blockMappingKey
  | .blockMappingKey => blockMappingKey
  | .blockMappingValue =>
    let t ← peekToken
    if t.kind.sort == .value then
      let _ ← getToken
      if ← check [.key, .value, .blockEnd] then
        next .blockMappingKey
        return some (emptyScalar t.stop)
      remember .blockMappingKey
      return some (← node true true)
    next .blockMappingKey
    return some (emptyScalar t.start)
  | .flowSequenceFirstEntry =>
    let t ← getToken
    openAt t.start
    flowSequenceEntry true
  | .flowSequenceEntry first => flowSequenceEntry first
  | .flowSequencePairKey =>
    let t ← getToken
    if ← check [.value, .flowEntry, .flowSequenceEnd] then
      next .flowSequencePairValue
      return some (emptyScalar t.stop)
    remember .flowSequencePairValue
    return some (← node false false)
  | .flowSequencePairValue =>
    let t ← peekToken
    if t.kind.sort == .value then
      let _ ← getToken
      if ← check [.flowEntry, .flowSequenceEnd] then
        next .flowSequencePairEnd
        return some (emptyScalar t.stop)
      remember .flowSequencePairEnd
      return some (← node false false)
    next .flowSequencePairEnd
    return some (emptyScalar t.start)
  | .flowSequencePairEnd =>
    next (.flowSequenceEntry false)
    let t ← peekToken
    return some ⟨.mappingEnd, t.start, t.start⟩
  | .flowMappingFirstKey =>
    let t ← getToken
    openAt t.start
    flowMappingKey true
  | .flowMappingKey first => flowMappingKey first
  | .flowMappingValue =>
    let t ← peekToken
    if t.kind.sort == .value then
      let _ ← getToken
      if ← check [.flowEntry, .flowMappingEnd] then
        next (.flowMappingKey false)
        return some (emptyScalar t.stop)
      remember (.flowMappingKey false)
      return some (← node false false)
    next (.flowMappingKey false)
    return some (emptyScalar t.start)
  | .flowMappingEmptyValue =>
    next (.flowMappingKey false)
    return some (emptyScalar (← peekToken).start)
where
  /-- The start of an explicit document, or the end of the stream. -/
  documentStart : ParseM (Option Event) := do
    let rec skipEnds : Nat → ParseM Unit
      | 0 => pure ()
      | fuel + 1 => do
        if ← check [.documentEnd] then
          let _ ← getToken
          skipEnds fuel
    skipEnds ((← get).tokens.items.size + 1)
    let t ← peekToken
    if t.kind.sort == .streamEnd then
      let _ ← getToken
      next .finished
      return some ⟨.streamEnd, t.start, t.stop⟩
    directives ((← get).tokens.items.size + 1)
    let d ← peekToken
    if d.kind.sort != .documentStart then
      fail none none ("expected '<document start>', but found " ++ Text.quote d.kind.sort.id) d.start
    let _ ← getToken
    remember .documentEnd
    next .documentContent
    return some ⟨.documentStart true, t.start, d.stop⟩
  /-- An entry of a block sequence, or its end. -/
  blockSequenceEntry : ParseM (Option Event) := do
    let t ← peekToken
    if t.kind.sort == .blockEntry then
      let _ ← getToken
      if ← check [.blockEntry, .blockEnd] then
        next .blockSequenceEntry
        return some (emptyScalar t.stop)
      remember .blockSequenceEntry
      return some (← node true false)
    if t.kind.sort != .blockEnd then
      fail (some "while parsing a block collection") (some (← openMark))
        ("expected <block end>, but found " ++ Text.quote t.kind.sort.id) t.start
    let _ ← getToken
    resume
    closeMark
    return some ⟨.sequenceEnd, t.start, t.stop⟩
  /-- A key of a block mapping, or its end. -/
  blockMappingKey : ParseM (Option Event) := do
    let t ← peekToken
    if t.kind.sort == .key then
      let _ ← getToken
      if ← check [.key, .value, .blockEnd] then
        next .blockMappingValue
        return some (emptyScalar t.stop)
      remember .blockMappingValue
      return some (← node true true)
    if t.kind.sort != .blockEnd then
      fail (some "while parsing a block mapping") (some (← openMark))
        ("expected <block end>, but found " ++ Text.quote t.kind.sort.id) t.start
    let _ ← getToken
    resume
    closeMark
    return some ⟨.mappingEnd, t.start, t.stop⟩
  /-- An entry of a flow sequence, or its end. -/
  flowSequenceEntry (first : Bool) : ParseM (Option Event) := do
    if !(← check [.flowSequenceEnd]) then
      if !first then
        if ← check [.flowEntry] then
          let _ ← getToken
        else
          let t ← peekToken
          fail (some "while parsing a flow sequence") (some (← openMark))
            ("expected ',' or ']', but got " ++ Text.quote t.kind.sort.id) t.start
      let t ← peekToken
      if t.kind.sort == .key then
        next .flowSequencePairKey
        return some ⟨.mappingStart none none, t.start, t.stop⟩
      if !(← check [.flowSequenceEnd]) then
        remember (.flowSequenceEntry false)
        return some (← node false false)
    let t ← getToken
    resume
    closeMark
    return some ⟨.sequenceEnd, t.start, t.stop⟩
  /-- A key of a flow mapping, or its end. -/
  flowMappingKey (first : Bool) : ParseM (Option Event) := do
    if !(← check [.flowMappingEnd]) then
      if !first then
        if ← check [.flowEntry] then
          let _ ← getToken
        else
          let t ← peekToken
          fail (some "while parsing a flow mapping") (some (← openMark))
            ("expected ',' or '\x7d', but got " ++ Text.quote t.kind.sort.id) t.start
      let t ← peekToken
      if t.kind.sort == .key then
        let _ ← getToken
        if ← check [.value, .flowEntry, .flowMappingEnd] then
          next .flowMappingValue
          return some (emptyScalar t.stop)
        remember .flowMappingValue
        return some (← node false false)
      if !(← check [.flowMappingEnd]) then
        remember .flowMappingEmptyValue
        return some (← node false false)
    let t ← getToken
    resume
    closeMark
    return some ⟨.mappingEnd, t.start, t.stop⟩

end Parse

/-- Read events with the parser until the stream ends. -/
def Parser.run : Nat → Parser → Array Event → Events
  | 0, _, acc => ⟨acc, none⟩
  | fuel + 1, s, acc =>
    match Parse.step.run s with
    | .error p => ⟨acc, some p⟩
    | .ok (none, _) => ⟨acc, none⟩
    | .ok (some e, s) => Parser.run fuel s (acc.push e)

/-- The events of a token stream. -/
def Events.parse (ts : Tokens) : Events :=
  Parser.run (4 * (ts.items.size + 2)) ⟨ts, 0, .streamStart, [], [], Parse.defaultHandles⟩ #[]

@[simp] theorem emptyScalar_kind (p : Place) : (Parse.emptyScalar p).kind = .scalar none none true "" := rfl

end Yaml
end Firewall
