import Firewall.Text.Quoted
import Firewall.Value.Text

/-!
# Faults

Everything that can go wrong while a configuration is read, rules are
generated, a kernel is updated or an archive is consulted, as a cause with its
data.  `Fault.message` holds all the wording in one place; the only fault
without a fixed text is running out of nesting depth.

Documents that fail to parse report marks: the source name, line and column
(counted from one in the text), and for documents given as text a two-line
snippet that points at the column.
-/

namespace Firewall

/-- A position in a YAML document, with the snippet shown for documents given as text. -/
structure Mark where
  name : String
  line : Nat
  column : Nat
  snippet : Option String
deriving Repr, DecidableEq, Inhabited

/-- The stage of YAML reading that failed. -/
inductive YamlStage where
  | scanner
  | parser
  | composer
  | constructor
deriving Repr, DecidableEq, Inhabited

/-- A YAML failure: what was being read and where, what went wrong and where. -/
structure YamlError where
  stage : YamlStage
  context : Option String
  contextMark : Option Mark
  problem : String
  problemMark : Mark
deriving Repr, DecidableEq, Inhabited

/-- The configuration keys that older configurations used. -/
inductive Retired where
  | global
  | rules
  | variables
deriving Repr, DecidableEq, Inhabited

/-- A cause of failure. -/
inductive Fault where
  /-- a mapping has no entry under the key (given by its source text) -/
  | missingKey (key : String)
  /-- a value of this kind cannot be walked through -/
  | notIterable (kind : String)
  /-- a value of this kind cannot be indexed -/
  | notSubscriptable (kind : String)
  /-- a list, tuple or byte string (`sequence`) was indexed by a value of this kind -/
  | badIndex (sequence kind : String)
  /-- a list was assigned past its end -/
  | assignRange
  /-- a text was indexed by a value of this kind -/
  | textIndex (kind : String)
  /-- a value of this kind cannot take an entry -/
  | noItemAssignment (kind : String)
  /-- a pattern was matched against a value of this kind -/
  | notText (kind : String)
  /-- a path was made of a value of this kind -/
  | notPath (kind : String)
  /-- a member of a joined list is not a text -/
  | joinItem (index : Nat) (kind : String)
  /-- a pair was taken from fewer than two values -/
  | tooFewValues (got : Nat)
  /-- a pair was taken from more than two values -/
  | tooManyValues
  /-- a pair was taken from a value of this kind, which has no members -/
  | notUnpackable (kind : String)
  /-- a value of this kind has no JSON form -/
  | notSerializable (kind : String)
  /-- a container met again inside itself was to be written as JSON -/
  | circular
  /-- two values of these kinds were compared by `op` -/
  | unorderable (op left right : String)
  /-- a value of this kind lacks the operation -/
  | noAttribute (kind attr : String)
  /-- a network address has bits set below its prefix -/
  | hostBits (network : String)
  /-- a list lacks the item (given by its source text) -/
  | notInList (item : String)
  /-- an archive retention count below zero -/
  | negativeKeep
  /-- a command line with an open quotation -/
  | unclosedQuote
  /-- a command line ending in an escape -/
  | danglingEscape
  /-- a date or time field out of range, with the rule it breaks -/
  | badStamp (rule : String)
  /-- a list was indexed past its end -/
  | indexRange
  /-- a tuple was indexed past its end -/
  | tupleIndexRange
  /-- a tuple of other than one item was given to a format with one placeholder -/
  | formatArguments (tooMany : Bool)
  /-- a netmask that is neither a prefix length nor a mask, by its source text -/
  | badNetmask (shown : String)
  /-- a text that is no address of the family -/
  | badAddress (text : String)
  /-- a zone rule names a chain that takes no rules -/
  | invalidChain (chain : String)
  /-- a zone combines `to` with a built-in chain -/
  | chainConflict (zone chain other : String)
  /-- a configuration still uses a retired key -/
  | retired (key : Retired)
  /-- a restore command failed, with its error output -/
  | rulesetFailed (text : String)
  /-- an archive index that no archive has -/
  | noArchiveIndex (index : Int)
  /-- an archive name that no archive has -/
  | noArchiveName (name : String)
  /-- a file that does not exist -/
  | noSuchFile (path : String)
  /-- a path that runs through a plain file -/
  | notADirectory (path : String)
  /-- a directory where a plain file was to be written -/
  | isADirectory (path : String)
  /-- a JSON text that does not parse, at a character position -/
  | jsonDecode (problem : String) (text : String) (pos : Nat)
  /-- a YAML text that does not load -/
  | yaml (e : YamlError)
  /-- a command that exited with a nonzero status -/
  | commandFailed (argv : List String) (status : Nat)
  /-- a document holds a character that documents may not hold -/
  | unacceptableChar (code : Nat) (name : String) (position : Nat)
  /-- a mapping key of this kind has no hash -/
  | unhashable (kind : String)
  /-- a text that is no integer in the base -/
  | intLiteral (base : Nat) (text : String)
  /-- a text that is no decimal number -/
  | floatLiteral (text : String)
  /-- a decimal integer text with more digits than allowed -/
  | intDigits (digits : Nat)
  /-- a value of this kind was made an integer -/
  | intArgument (kind : String)
  /-- a double that is not finite was made an integer -/
  | floatToInt (notANumber : Bool)
  /-- a text that is no complex number -/
  | complexLiteral
  /-- a text with misplaced underscores read as a complex number -/
  | complexText (text : String)
  /-- a mapping key of this kind has no JSON form -/
  | badJsonKey (kind : String)
  /-- an integer with more decimal digits than a text may have -/
  | intTooLong
  /-- a code point beyond the last one -/
  | codePointRange
  /-- a module was to be imported by an empty name -/
  | emptyModule
  /-- an offset from UTC of a day or more, in minutes -/
  | offsetRange (minutes : Int)
  /-- a text was indexed past its end -/
  | textIndexRange
  /-- a file that is no archive was read as one -/
  | notAnArchive
  /-- a count that is no integer was used to cut a list -/
  | badSliceIndex
  /-- nesting deeper than the evaluation depth -/
  | recursion
  /-- the clock has no more readings -/
  | clockExhausted
  /-- the supply of temporary names is used up -/
  | wordsExhausted
  /-- an update was not confirmed in time -/
  | unconfirmed
deriving Repr, DecidableEq, Inhabited

namespace Mark

/-- `  in "name", line L, column C`, followed by the snippet when there is one. -/
def text (m : Mark) : String :=
  let whereText := "  in \"" ++ m.name ++ "\", line " ++ toString (m.line + 1) ++
    ", column " ++ toString (m.column + 1)
  match m.snippet with
  | none => whereText
  | some s => whereText ++ ":\n" ++ s

end Mark

namespace YamlError

/-- The lines of a YAML failure: context, its mark unless it equals the
problem's, problem, problem mark. -/
def text (e : YamlError) : String :=
  let ctx := e.context.toList
  let ctxMark := match e.contextMark with
    | none => []
    | some m =>
      if m.name == e.problemMark.name && m.line == e.problemMark.line &&
          m.column == e.problemMark.column then []
      else [m.text]
  "\n".intercalate (ctx ++ ctxMark ++ [e.problem, e.problemMark.text])

end YamlError

namespace Retired

/-- What replaced a retired key. -/
def message : Retired → String
  | .global => "The dictionary 'global' is no longer valid in v0.10.0 and newer configurations. " ++
      "Move existing contents to the top level in the configuration."
  | .rules => "The dictionary 'rules' is no longer valid in v0.11.0 and newer configurations. " ++
      "Move existing contents to the top level in the configuration."
  | .variables => "The dictionary 'variables' is renamed to 'objects' in v0.14.0 and newer configurations."

end Retired

/-- Line (from one) and column (from one) of a code point position in a text. -/
def lineColumn (text : String) (pos : Nat) : Nat × Nat :=
  let before := (Text.codePoints text).take pos
  let line := before.count 10 + 1
  let col := match before.reverse.findIdx? (· == 10) with
    | none => pos + 1
    | some i => i + 1
  (line, col)

/-- The decimal text of a natural number. -/
def natText (n : Nat) : String := toString n

namespace Fault

/-- The message of a fault; none for running out of depth, whose wording
depends on where it happens. -/
def message : Fault → Option String
  | .missingKey k => some k
  | .notIterable t => some ("'" ++ t ++ "' object is not iterable")
  | .notSubscriptable t => some ("'" ++ t ++ "' object is not subscriptable")
  | .badIndex s t => some (s ++ " indices must be integers or slices, not " ++ t)
  | .assignRange => some "list assignment index out of range"
  | .textIndex t => some ("string indices must be integers, not '" ++ t ++ "'")
  | .noItemAssignment t => some ("'" ++ t ++ "' object does not support item assignment")
  | .notText t => some ("expected string or bytes-like object, got '" ++ t ++ "'")
  | .notPath t => some ("expected str, bytes or os.PathLike object, not " ++ t)
  | .joinItem i t => some ("sequence item " ++ natText i ++ ": expected str instance, " ++ t ++ " found")
  | .tooFewValues n => some ("not enough values to unpack (expected 2, got " ++ natText n ++ ")")
  | .tooManyValues => some "too many values to unpack (expected 2)"
  | .notUnpackable t => some ("cannot unpack non-iterable " ++ t ++ " object")
  | .notSerializable t => some ("Object of type " ++ t ++ " is not JSON serializable")
  | .circular => some "Circular reference detected"
  | .unorderable op l r =>
    some ("'" ++ op ++ "' not supported between instances of '" ++ l ++ "' and '" ++ r ++ "'")
  | .noAttribute t a => some ("'" ++ t ++ "' object has no attribute '" ++ a ++ "'")
  | .hostBits n => some (n ++ " has host bits set")
  | .notInList item => some (item ++ " is not in list")
  | .negativeKeep => some "keep value must be an integer 0 or more"
  | .unclosedQuote => some "No closing quotation"
  | .danglingEscape => some "No escaped character"
  | .badStamp rule => some rule
  | .indexRange => some "list index out of range"
  | .tupleIndexRange => some "tuple index out of range"
  | .formatArguments false => some "not enough arguments for format string"
  | .formatArguments true => some "not all arguments converted during string formatting"
  | .badNetmask t => some (t ++ " is not a valid netmask")
  | .badAddress t => some t
  | .invalidChain c => some ("'" ++ c ++ "' is not a valid target chain")
  | .chainConflict z c o =>
    some ("Error in zone '" ++ z ++ "': '" ++ c ++ "' can not be combined with '" ++ o ++ "'")
  | .retired k => some k.message
  | .rulesetFailed t => some t
  | .noArchiveIndex i => some ("The archive file index '" ++ toString i ++ "' does not exist")
  | .noArchiveName n => some ("The archive file named '" ++ n ++ "' does not exist")
  | .noSuchFile p => some ("[Errno 2] No such file or directory: " ++ Text.quote p)
  | .notADirectory p => some ("[Errno 20] Not a directory: " ++ Text.quote p)
  | .isADirectory p => some ("[Errno 21] Is a directory: " ++ Text.quote p)
  | .jsonDecode problem text pos =>
    let (line, col) := lineColumn text pos
    some (problem ++ ": line " ++ natText line ++ " column " ++ natText col ++ " (char " ++ natText pos ++ ")")
  | .yaml e => some e.text
  | .commandFailed argv status =>
    some ("Command '[" ++ ", ".intercalate (argv.map Text.quote) ++ "]' returned non-zero exit status " ++
      natText status ++ ".")
  | .unacceptableChar code name pos =>
    some ("unacceptable character #x" ++ Text.hexPadded 4 code ++ ": special characters are not allowed\n" ++
      "  in \"" ++ name ++ "\", position " ++ natText pos)
  | .unhashable t => some ("unhashable type: '" ++ t ++ "'")
  | .intLiteral base t => some ("invalid literal for int() with base " ++ natText base ++ ": " ++ Text.quote t)
  | .floatLiteral t => some ("could not convert string to float: " ++ Text.quote t)
  | .intDigits n =>
    some ("Exceeds the limit (4300 digits) for integer string conversion: value has " ++ natText n ++
      " digits; use sys.set_int_max_str_digits() to increase the limit")
  | .intArgument t =>
    some ("int() argument must be a string, a bytes-like object or a real number, not '" ++ t ++ "'")
  | .floatToInt true => some "cannot convert float NaN to integer"
  | .floatToInt false => some "cannot convert float infinity to integer"
  | .complexLiteral => some "complex() arg is a malformed string"
  | .complexText t => some ("could not convert string to complex: " ++ Text.quote t)
  | .badJsonKey t => some ("keys must be str, int, float, bool or None, not " ++ t)
  | .intTooLong =>
    some ("Exceeds the limit (4300 digits) for integer string conversion; " ++
      "use sys.set_int_max_str_digits() to increase the limit")
  | .codePointRange => some "chr() arg not in range(0x110000)"
  | .emptyModule => some "Empty module name"
  | .offsetRange m =>
    some ("offset must be a timedelta strictly between -timedelta(hours=24) and timedelta(hours=24), not " ++
      Stamp.durationSource m ++ ".")
  | .textIndexRange => some "string index out of range"
  | .notAnArchive => some "not an lzma file"
  | .badSliceIndex => some "slice indices must be integers or None or have an __index__ method"
  | .recursion => none
  | .clockExhausted => some "clock exhausted"
  | .wordsExhausted => some "tmp words exhausted"
  | .unconfirmed => some ""

/-- The text of a fault as a report prints it. -/
def report (f : Fault) : String :=
  f.message.getD "maximum recursion depth exceeded"

/-- Whether the fault is a missing mapping entry, the one failure that
look-ups with a fallback absorb. -/
def isMissingKey : Fault → Bool
  | .missingKey _ => true
  | _ => false

@[simp] theorem message_missingKey (k : String) :
    (Fault.missingKey k).message = some k := rfl

end Fault

end Firewall
