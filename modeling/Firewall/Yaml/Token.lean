import Firewall.Yaml.Source

/-!
# YAML tokens

The tokens a YAML text splits into: the stream and document markers,
directives, the starts and ends of block and flow collections, the indicators
of keys, values and entries, aliases, anchors, tags and scalars.  Block
collections have no brackets in the text; their start and end tokens come
from the indentation.  Every token spans two places of the text.

`TokenKind.sort` forgets what a token carries; `TokenSort.id` is how failures
name a token.
-/

namespace Firewall
namespace Yaml

/-- What a directive says: a YAML version, a tag handle with its prefix, or
nothing that is read. -/
inductive DirectiveValue where
  | version (major minor : Nat)
  | tagPrefix (handle pre : String)
  | other
deriving Repr, DecidableEq, Inhabited

/-- A token with what it carries. -/
inductive TokenKind where
  | streamStart
  | streamEnd
  | directive (name : String) (value : DirectiveValue)
  | documentStart
  | documentEnd
  | blockSequenceStart
  | blockMappingStart
  | blockEnd
  | flowSequenceStart
  | flowMappingStart
  | flowSequenceEnd
  | flowMappingEnd
  | key
  | value
  | blockEntry
  | flowEntry
  | alias (name : String)
  | anchor (name : String)
  | tag (handle : Option String) (suffix : String)
  | scalar (text : String) (plain : Bool)
deriving Repr, DecidableEq, Inhabited

/-- The sorts of tokens. -/
inductive TokenSort where
  | streamStart
  | streamEnd
  | directive
  | documentStart
  | documentEnd
  | blockSequenceStart
  | blockMappingStart
  | blockEnd
  | flowSequenceStart
  | flowMappingStart
  | flowSequenceEnd
  | flowMappingEnd
  | key
  | value
  | blockEntry
  | flowEntry
  | alias
  | anchor
  | tag
  | scalar
deriving Repr, DecidableEq, Inhabited

/-- The sort of a token. -/
def TokenKind.sort : TokenKind → TokenSort
  | .streamStart => .streamStart
  | .streamEnd => .streamEnd
  | .directive _ _ => .directive
  | .documentStart => .documentStart
  | .documentEnd => .documentEnd
  | .blockSequenceStart => .blockSequenceStart
  | .blockMappingStart => .blockMappingStart
  | .blockEnd => .blockEnd
  | .flowSequenceStart => .flowSequenceStart
  | .flowMappingStart => .flowMappingStart
  | .flowSequenceEnd => .flowSequenceEnd
  | .flowMappingEnd => .flowMappingEnd
  | .key => .key
  | .value => .value
  | .blockEntry => .blockEntry
  | .flowEntry => .flowEntry
  | .alias _ => .alias
  | .anchor _ => .anchor
  | .tag _ _ => .tag
  | .scalar _ _ => .scalar

/-- How failures name a sort of token. -/
def TokenSort.id : TokenSort → String
  | .streamStart => "<stream start>"
  | .streamEnd => "<stream end>"
  | .directive => "<directive>"
  | .documentStart => "<document start>"
  | .documentEnd => "<document end>"
  | .blockSequenceStart => "<block sequence start>"
  | .blockMappingStart => "<block mapping start>"
  | .blockEnd => "<block end>"
  | .flowSequenceStart => "["
  | .flowMappingStart => "\x7b"
  | .flowSequenceEnd => "]"
  | .flowMappingEnd => "\x7d"
  | .key => "?"
  | .value => ":"
  | .blockEntry => "-"
  | .flowEntry => ","
  | .alias => "<alias>"
  | .anchor => "<anchor>"
  | .tag => "<tag>"
  | .scalar => "<scalar>"

/-- A token and the places where it starts and stops. -/
structure Token where
  kind : TokenKind
  start : Place
  stop : Place
deriving Repr, DecidableEq, Inhabited

/-- The tokens of a text, in the order they are asked for, and the failure met
when asking for the one after them, if reading failed. -/
structure Tokens where
  items : Array Token
  failure : Option Problem
deriving Repr, Inhabited

@[simp] theorem sort_key : TokenKind.key.sort = .key := rfl

end Yaml
end Firewall
