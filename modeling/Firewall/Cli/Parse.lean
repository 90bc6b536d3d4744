import Firewall.Cli.Help
import Firewall.Text.Integer

/-!
# Reading a command line

A command reads its words in two passes.  The first sorts them: `--` ends
the options, and every word after it is an argument; a word that starts with
`-` is a flag of the command when it is one of its flags, one of them with
`=word` appended, or the start of exactly one of them (the start of several
is a failure); a short flag may carry its word, or further short flags,
directly behind it.  Other words that start with `-` are unknown flags,
unless they look like negative numbers or contain a blank.

The second pass reads from the left.  A flag takes its words: a switch none,
an option of one word the next argument (its absence is a failure), an option
of at most one word the next argument if there is one.  Before each flag, and
after the last, the positional argument takes what it can: an optional word
takes the next argument, the choice of a subcommand takes everything that
follows, flags included, and hands it to the subcommand.  Unknown flags and
words nothing takes are left over; once the whole command line is read, left
over words are a failure of the program.

Each value is checked as it is taken: an integer word must denote one, a
word with choices must be one of them, and an option of a group may not
follow another option of the group given a value.  An integer equal to the
default and within -5 to 256 counts as the default, not as a given value.
Showing help stops the reading at once.
-/

namespace Firewall
namespace Cli

/-- Why reading a command line stopped: help was asked for, or the words
are wrong for the command named by the path. -/
inductive Stop where
  | help (path : List String)
  | error (path : List String) (message : String)
deriving Repr, DecidableEq, Inhabited

/-- How a command sees one of its words. -/
inductive Word where
  | marker
  | arg (s : String)
  | flag (opt : Option Opt) (given : String) (explicit : Option String) (text : String)
deriving Repr, DecidableEq, Inhabited

namespace Word

/-- The word as written. -/
def text : Word → String
  | .marker => "--"
  | .arg s => s
  | .flag _ _ _ t => t

/-- Whether the word is a flag, known or not. -/
def isFlag : Word → Bool
  | .flag .. => true
  | _ => false

/-- Whether the word is an argument. -/
def isArg : Word → Bool
  | .arg _ => true
  | _ => false

end Word

/-- A text split at its first occurrence of a character. -/
def splitFirst (s : String) (c : Char) : Option (String × String) :=
  let cs := s.toList
  let before := cs.takeWhile (· != c)
  if before.length == cs.length then none
  else some (String.ofList before, String.ofList (cs.drop (before.length + 1)))

/-- Whether a character is a decimal digit of any script. -/
def isDecimal (c : Char) : Bool := (Text.decimalValue c).isSome

/-- Whether a word looks like a negative number: `-` and digits, or `-`,
digits, a point and digits; one final line feed is allowed. -/
def looksNegative (s : String) : Bool :=
  match s.toList with
  | '-' :: rest =>
    let body := if rest.getLast? == some '\n' then rest.dropLast else rest
    let after := body.dropWhile isDecimal
    (!body.isEmpty && after.isEmpty) ||
      (match after with
       | '.' :: frac => !frac.isEmpty && frac.all isDecimal
       | _ => false)
  | _ => false

namespace Command

/-- Every flag of the command with its option, in the order they were given. -/
def flagTable (c : Command) : List (String × Opt) :=
  c.options.flatMap fun o => o.flags.map fun f => (f, o)

/-- The option a flag names. -/
def option? (c : Command) (f : String) : Option Opt :=
  (c.flagTable.find? (·.1 == f)).map (·.2)

/-- The flags a word may stand for, each with the word it carries. -/
def candidates (c : Command) (s : String) : List (Opt × String × Option String) :=
  match s.toList with
  | '-' :: '-' :: _ =>
    let (start, explicit) := match splitFirst s '=' with
      | some (a, b) => (a, some b)
      | none => (s, none)
    c.flagTable.filterMap fun (f, o) => if f.startsWith start then some (o, f, explicit) else none
  | '-' :: _ :: _ =>
    let short := String.ofList (s.toList.take 2)
    let rest := String.ofList (s.toList.drop 2)
    c.flagTable.filterMap fun (f, o) =>
      if f == short then some (o, f, some rest)
      else if f.startsWith s then some (o, f, none) else none
  | _ => []

/-- Whether some flag of the command looks like a negative number. -/
def hasNegativeFlags (c : Command) : Bool := c.flagTable.any fun e => looksNegative e.1

/-- How the command sees a word other than `--`. -/
def sort (c : Command) (s : String) : Except String Word :=
  if s.toList.head? != some '-' then .ok (.arg s)
  else match c.option? s with
  | some o => .ok (.flag (some o) s none s)
  | none =>
    if s.length == 1 then .ok (.arg s)
    else
      let exact := match splitFirst s '=' with
        | some (f, e) => (c.option? f).map fun o => Word.flag (some o) f (some e) s
        | none => none
      match exact with
      | some w => .ok w
      | none =>
        match c.candidates s with
        | [(o, f, e)] => .ok (.flag (some o) f e s)
        | cs@(_ :: _ :: _) =>
          .error ("ambiguous option: " ++ s ++ " could match " ++ ", ".intercalate (cs.map (·.2.1)))
        | [] =>
          if looksNegative s && !c.hasNegativeFlags then .ok (.arg s)
          else if s.contains ' ' then .ok (.arg s)
          else .ok (.flag none s none s)

/-- How the command sees its words. -/
def sortAll (c : Command) : List String → Except String (List Word)
  | [] => .ok []
  | s :: rest =>
    if s == "--" then .ok (.marker :: rest.map .arg)
    else do
      let w ← c.sort s
      pure (w :: (← c.sortAll rest))

end Command

/-- The state of reading a command's words. -/
structure Reading where
  values : Namespace
  given : List String
  extras : List String
  later : List String
  positional : Option Positional
deriving Repr, Inhabited

/-- Whether a value counts as the default rather than as given. -/
def sameAsDefault : ArgValue → ArgValue → Bool
  | .int n, .int d => n == d && -5 ≤ n && n ≤ 256
  | .absent, .absent => true
  | _, _ => false

/-- A failure about an argument. -/
def argumentError (path : List String) (name message : String) : Stop :=
  .error path ("argument " ++ name ++ ": " ++ message)

/-- Read one word for an argument: as an integer if it must be one, then
checked against the choices. -/
def readWord (path : List String) (name : String) (kind : WordKind) (choices : List String)
    (w : String) : Except Stop ArgValue := do
  let v ← match kind with
    | .text => pure (ArgValue.text w)
    | .integer =>
      match Text.integer? w with
      | some n => pure (ArgValue.int n)
      | none => throw (argumentError path name ("invalid int value: " ++ Text.quote w))
  if !choices.isEmpty && !choices.contains w then
    throw (argumentError path name
      ("invalid choice: " ++ Text.quote w ++ " (choose from " ++ choicesList choices ++ ")"))
  pure v

/-- Words without the first `--` among them. -/
def dropMarker (ws : List String) : List String := ws.erase "--"

/-- Give an option its words, checking the value and the option's group. -/
def takeOption (c : Command) (r : Reading) (o : Opt) (words : List String) : Except Stop Reading := do
  let v ← match o.effect, dropMarker words with
    | .help, _ => throw (.help c.path)
    | .switch, _ => pure (ArgValue.bool true)
    | .store .optional, [] => pure o.const
    | .store _, w :: _ => readWord c.path o.name o.kind o.choices w
    | .store .one, [] => pure ArgValue.absent
  let r ← if sameAsDefault v o.default then pure r else
    match o.group with
    | none => pure { r with given := r.given ++ [o.name] }
    | some g =>
      let rivals := c.options.filter fun p => p.group == some g && p.name != o.name
      match rivals.find? (fun p => r.given.contains p.name) with
      | some p => throw (argumentError c.path o.name ("not allowed with argument " ++ p.name))
      | none => pure { r with given := r.given ++ [o.name] }
  pure { r with values := r.values.set o.dest v }

/-- The option call a known flag without a carried word makes, and how many
of the following words it takes. -/
def plainCall (c : Command) (o : Opt) (rest : List Word) : Except Stop (List (Opt × List String) × Nat) :=
  let k := match o.effect, rest.head? with
    | .store _, some (.arg _) => 1
    | _, _ => 0
  match o.effect, k with
  | .store .one, 0 => .error (argumentError c.path o.name "expected one argument")
  | _, _ => .ok ([(o, (rest.take k).map Word.text)], k)

/-- The option calls a flag with a carried word makes, and how many of the
following words they take: an option that takes words takes the carried
word, and a switch given as a short flag reads the carried word as further
short flags, each of which must be a flag of the command. -/
def carried (c : Command) (o : Opt) (f : String) (rest : List Word) :
    List Char → Except Stop (List (Opt × List String) × Nat)
  | [] =>
    if o.takesWords then .ok ([(o, [""])], 0)
    else .error (argumentError c.path o.name ("ignored explicit argument " ++ Text.quote ""))
  | e@(ch :: more) =>
    let ignored := argumentError c.path o.name ("ignored explicit argument " ++ Text.quote (String.ofList e))
    if o.takesWords then .ok ([(o, [String.ofList e])], 0)
    else if (f.toList.drop 1).head? == some '-' then .error ignored
    else
      let f' := String.ofList ['-', ch]
      match c.option? f' with
      | none => .error ignored
      | some o' => do
        let (calls, k) ← if more.isEmpty then plainCall c o' rest else carried c o' f' rest more
        pure ((o, []) :: calls, k)

/-- An option that takes words takes the carried word whole. -/
theorem carried_takesWords (c : Command) (o : Opt) (f : String) (rest : List Word) (e : List Char)
    (h : o.takesWords = true) :
    carried c o f rest e = .ok ([(o, [String.ofList e])], 0) := by
  cases e <;> simp [carried, h]

/-- The option calls a known flag makes and how many of the following words
they take. -/
def calls (c : Command) (o : Opt) (f : String) (explicit : Option String) (rest : List Word) :
    Except Stop (List (Opt × List String) × Nat) :=
  match explicit with
  | some e => carried c o f rest e.toList
  | none => plainCall c o rest

/-- How many words the positional argument takes from the front, if it can
take them. -/
def Positional.take? (p : Positional) (ws : List Word) : Option Nat :=
  let lead := (ws.takeWhile (· == .marker)).length
  let after := ws.drop lead
  match p with
  | .word .. =>
    let a := if (after.head?.map Word.isArg).getD false then 1 else 0
    let trail := ((after.drop a).takeWhile (· == .marker)).length
    some (lead + a + trail)
  | .commands .. =>
    if (after.head?.map Word.isArg).getD false then some ws.length else none

/-- Read a command's words, a subcommand's through `sub`. -/
def readWith (sub : List String → List String → Except Stop (Namespace × List String))
    (c : Command) (args : List String) : Except Stop (Namespace × List String) := do
  let words ← (c.sortAll args).mapError (Stop.error c.path)
  let start : Namespace := c.options.foldl (fun ns o =>
    match o.effect with
    | .help => ns
    | _ => ns.setDefault o.dest o.default) []
  let start := match c.positional.bind Positional.dest with
    | some d => start.setDefault d .absent
    | none => start
  let start := match c.action with
    | some a => start.setDefault "action" (.text a)
    | none => start
  let positionals := fun (ws : List Word) (r : Reading) => do
    match r.positional with
    | none => pure (0, r)
    | some p =>
      match p.take? ws with
      | none => pure (0, r)
      | some k =>
        let taken := (ws.take k).map Word.text
        let r := { r with positional := none }
        match p with
        | .word dest metavar choices _ =>
          match dropMarker taken with
          | [] => pure (k, { r with values := r.values.set dest .absent })
          | w :: _ =>
            let v ← readWord c.path (metavar.getD dest) .text choices w
            pure (k, { r with values := r.values.set dest v, given := r.given ++ [dest] })
        | .commands dest _ names =>
          match taken with
          | [] => pure (k, r)
          | name :: rest =>
            if !(names.map (·.1)).contains name then
              throw (argumentError c.path p.name
                ("invalid choice: " ++ Text.quote name ++ " (choose from " ++
                  choicesList (names.map (·.1)) ++ ")"))
            let values := match dest with
              | some d => r.values.set d (.text name)
              | none => r.values
            let (subValues, unknown) ← sub (c.path ++ [name]) rest
            let values := subValues.foldr (fun (key, v) ns => ns.set key v) values
            pure (k, { r with values := values, later := r.later ++ unknown })
  let rec loop : Nat → List Word → Reading → Except Stop Reading
    | 0, _, r => pure r
    | n + 1, ws, r =>
      if !(ws.any Word.isFlag) then do
        let (k, r) ← positionals ws r
        pure { r with extras := r.extras ++ (ws.drop k).map Word.text }
      else
        match ws with
        | .flag none _ _ t :: rest => loop n rest { r with extras := r.extras ++ [t] }
        | .flag (some o) f e _ :: rest => do
          let (cs, k) ← calls c o f e rest
          let r ← cs.foldlM (fun r (o, words) => takeOption c r o words) r
          loop n (rest.drop k) r
        | _ => do
          let (k, r) ← positionals ws r
          if k > 0 then loop n (ws.drop k) r
          else
            let before := ws.takeWhile (!·.isFlag)
            loop n (ws.dropWhile (!·.isFlag)) { r with extras := r.extras ++ before.map Word.text }
  let r ← loop (words.length + 1) words ⟨start, [], [], [], c.positional⟩
  pure (r.values, r.extras ++ r.later)

/-- Read the words of the command at a path, each subcommand reading what
follows its name; `fuel` bounds the depth of subcommands. -/
def readAt (g : Grammar) : Nat → List String → List String → Except Stop (Namespace × List String)
  | 0, path, _ => .error (.error path "too many subcommands")
  | fuel + 1, path, args =>
    match g.find? path with
    | none => .error (.error path "unknown command")
    | some c => readWith (fun p rest => readAt g fuel p rest) c args

/-- Read a command line: the values it gives, or why it stopped.  Words that
no command took are a failure. -/
def Grammar.parse (g : Grammar) (args : List String) : Except Stop Namespace := do
  let (ns, extras) ← readAt g (args.length + 2) [] args
  if extras.isEmpty then pure ns
  else throw (.error [] ("unrecognized arguments: " ++ " ".intercalate extras))

/-- What a stop prints: help, or the usage line and the failure; and the
exit status. -/
def Stop.render (g : Grammar) : Stop → String × String × Nat
  | .help path =>
    match g.find? path with
    | some c => (Help.text g c, "", 0)
    | none => ("", "", 0)
  | .error path msg =>
    let usage := match g.find? path with
      | some c => Help.usage g c
      | none => ""
    ("", usage ++ g.progOf path ++ ": error: " ++ msg ++ "\n", 2)

end Cli
end Firewall
