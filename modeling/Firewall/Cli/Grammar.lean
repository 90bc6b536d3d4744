import Firewall.Text.Quoted

/-!
# Command-line grammars

A command line is read against a grammar: a program name and its commands.
A command has options, at most one positional argument, and possibly an
action of its own.  The positional argument is either an optional word or the
choice of a subcommand, which then reads all the words after its name.  A
subcommand is named by the words that lead to it from the program.

An option is named by one or more flags (`-h`, `--help`).  It shows help and
stops, switches something on, or takes one word or at most one word.  The
words of an option or positional may be restricted to a list of choices and
may have to denote an integer.  Options may form groups of which at most one
may be given.

What reading a command line produces is a namespace: values by name.
-/

namespace Firewall
namespace Cli

/-- A value that reading a command line gives a name. -/
inductive ArgValue where
  | absent
  | bool (b : Bool)
  | text (s : String)
  | int (n : Int)
deriving Repr, DecidableEq, Inhabited

/-- How many words follow an option that takes words. -/
inductive Arity where
  | one
  | optional
deriving Repr, DecidableEq, Inhabited

/-- What giving an option does. -/
inductive Effect where
  | help
  | switch
  | store (arity : Arity)
deriving Repr, DecidableEq, Inhabited

/-- How a word is read: as it stands, or as an integer. -/
inductive WordKind where
  | text
  | integer
deriving Repr, DecidableEq, Inhabited

/-- An option of a command. -/
structure Opt where
  flags : List String
  dest : String
  effect : Effect
  help : String
  metavar : Option String := none
  choices : List String := []
  kind : WordKind := .text
  default : ArgValue := .absent
  const : ArgValue := .absent
  group : Option Nat := none
deriving Repr, DecidableEq, Inhabited

/-- The positional argument of a command: an optional word, or the choice of
a subcommand by name, each with its help line. -/
inductive Positional where
  | word (dest : String) (metavar : Option String) (choices : List String) (help : String)
  | commands (dest : Option String) (title : String) (names : List (String × String))
deriving Repr, DecidableEq, Inhabited

/-- A command: the words that lead to it, its options, its positional
argument and the action it sets, if any. -/
structure Command where
  path : List String
  options : List Opt
  positional : Option Positional
  action : Option String
deriving Repr, DecidableEq, Inhabited

/-- A program's command-line grammar: its name and its commands, the program
itself being the command with the empty path. -/
structure Grammar where
  prog : String
  commands : List Command
deriving Repr, Inhabited

/-- Values by name, the latest setting of a name first. -/
abbrev Namespace := List (String × ArgValue)

namespace Namespace

/-- The value of a name, absent if it has none. -/
def get (ns : Namespace) (k : String) : ArgValue :=
  ((ns.find? (·.1 == k)).map (·.2)).getD .absent

/-- Whether a name has a value. -/
def has (ns : Namespace) (k : String) : Bool := ns.any (·.1 == k)

/-- Give a name a value. -/
def set (ns : Namespace) (k : String) (v : ArgValue) : Namespace := (k, v) :: ns.filter (·.1 != k)

/-- Give a name a value unless it has one. -/
def setDefault (ns : Namespace) (k : String) (v : ArgValue) : Namespace :=
  if ns.has k then ns else ns.set k v

end Namespace

/-- Choices as a metavariable: `{a,b,c}`. -/
def choicesText (cs : List String) : String := "\x7b" ++ ",".intercalate cs ++ "\x7d"

/-- Choices as a failure lists them: each quoted, separated by commas. -/
def choicesList (cs : List String) : String := ", ".intercalate (cs.map Text.quote)

namespace Opt

/-- Whether the option takes words. -/
def takesWords (o : Opt) : Bool :=
  match o.effect with
  | .store _ => true
  | _ => false

/-- The option's name in failures: its flags joined by slashes. -/
def name (o : Opt) : String := "/".intercalate o.flags

/-- The placeholder of the option's word: its own, its choices, or its name
in capitals. -/
def metavarText (o : Opt) : String :=
  match o.metavar with
  | some m => m
  | none => if o.choices.isEmpty then o.dest.toUpper else choicesText o.choices

/-- The words the option takes, as usage shows them. -/
def argsText (o : Opt) : String :=
  match o.effect with
  | .store .one => o.metavarText
  | .store .optional => "[" ++ o.metavarText ++ "]"
  | _ => ""

/-- The option as the usage line shows it, without brackets: its first flag
and its words. -/
def usageText (o : Opt) : String :=
  let flag := o.flags.headD ""
  if o.takesWords then flag ++ " " ++ o.argsText else flag

/-- The option as its help entry shows it: every flag, with its words. -/
def invocation (o : Opt) : String :=
  if o.takesWords then ", ".intercalate (o.flags.map (· ++ " " ++ o.argsText))
  else ", ".intercalate o.flags

end Opt

namespace Positional

/-- The placeholder of the positional argument. -/
def metavarText : Positional → String
  | .word dest metavar choices _ =>
    match metavar with
    | some m => m
    | none => if choices.isEmpty then dest else choicesText choices
  | .commands _ _ names => choicesText (names.map (·.1))

/-- The positional argument's name in failures. -/
def name : Positional → String
  | .word dest metavar _ _ => metavar.getD dest
  | .commands dest _ names => dest.getD (choicesText (names.map (·.1)))

/-- The words the usage line shows for the positional argument. -/
def usageParts : Positional → List String
  | p@(.word ..) => ["[" ++ p.metavarText ++ "]"]
  | p@(.commands ..) => [p.metavarText, "..."]

/-- The name the positional argument's value is stored under, if any. -/
def dest : Positional → Option String
  | .word d _ _ _ => some d
  | .commands d _ _ => d

end Positional

namespace Grammar

/-- The command a path leads to. -/
def find? (g : Grammar) (path : List String) : Option Command :=
  g.commands.find? (·.path == path)

/-- The name a command goes by: the program's name and the path. -/
def progOf (g : Grammar) (path : List String) : String :=
  " ".intercalate (g.prog :: path)

end Grammar

@[simp] theorem Namespace.get_set (ns : Namespace) (k : String) (v : ArgValue) :
    (ns.set k v).get k = v := by
  simp [Namespace.set, Namespace.get]

end Cli
end Firewall
