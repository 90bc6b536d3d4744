import Firewall.Cli.Grammar
import Firewall.Text.Lines

/-!
# Usage lines and help texts

A command's usage line names the program and the command, then shows each
option in brackets (the options of a group together, separated by bars) and
the positional argument.  A usage line wider than the 78 columns of the
layout is broken between items: after the name, the options fill lines
indented under the first option, and the positional argument starts a line
of its own.  When the name takes more than three quarters of the width, it
stands alone on the first line and the items follow, indented by the width
of `usage: `.

A command's help is its usage line, then sections: the positional word, the
options, and the choice of subcommands under its own title.  Every entry
shows how the item is written, then its help text, which starts in a column
shared by the whole help: two columns right of the widest entry, but never
beyond column 24.  An entry too wide for that column puts its help on the next
line.  Help texts are wrapped at blanks to the columns that remain.
-/

namespace Firewall
namespace Cli
namespace Help

/-- The number of columns help is laid out in. -/
def width : Nat := 78

/-- The column beyond which help texts never start. -/
def maxHelpColumn : Nat := 24

/-- The start of every usage line. -/
def usagePrefix : String := "usage: "

/-- A run of blanks. -/
def spaces (n : Nat) : String := String.ofList (List.replicate n ' ')

/-- A text padded with blanks on the right to a width. -/
def padRight (s : String) (n : Nat) : String := s ++ spaces (n - s.length)

/-- The words of a text on lines of at most the width, as many on each as
fit, joined by single blanks; a word wider than a line stands alone. -/
def wrap (w : Nat) (text : String) : List String :=
  let step := fun (acc : List String × Option String) (word : String) =>
    match acc with
    | (done, none) => (done, some word)
    | (done, some line) =>
      if line.length + 1 + word.length ≤ w then (done, some (line ++ " " ++ word))
      else (done ++ [line], some word)
  match (Text.words text).foldl step ([], none) with
  | (done, none) => done
  | (done, some line) => done ++ [line]

/-- The options in runs: an option outside every group alone, the options
of a group that stand together as one run. -/
def runs (opts : List Opt) : List (List Opt) :=
  opts.foldr (fun o acc =>
    match acc with
    | (r@(p :: _)) :: more =>
      if o.group.isSome && o.group == p.group then (o :: r) :: more else [o] :: acc
    | _ => [o] :: acc) []

/-- The usage items of options: each run in brackets, its options separated
by bars. -/
def optionItems (opts : List Opt) : List String :=
  (runs opts).map fun r => "[" ++ " | ".intercalate (r.map Opt.usageText) ++ "]"

/-- Items on lines of at most the layout's width, the first line starting
with `used` columns taken and the others with `indent`. -/
def fill (used indent : Nat) (items : List String) : List (List String) :=
  let step := fun (acc : List (List String) × List String × Nat) (item : String) =>
    let (done, line, taken) := acc
    if taken + item.length > width && !line.isEmpty then
      (done ++ [line], [item], indent + item.length + 1)
    else (done, line ++ [item], taken + item.length + 1)
  let (done, line, _) := items.foldl step ([], [], used)
  if line.isEmpty then done else done ++ [line]

/-- Lines of items, each indented. -/
def indented (indent : Nat) (lines : List (List String)) : List String :=
  lines.map fun l => spaces indent ++ " ".intercalate l

/-- The text after `usage: ` for a name, option items and positional items. -/
def usageBody (prog : String) (opts pos : List String) : String :=
  let whole := " ".intercalate (prog :: opts ++ pos)
  if usagePrefix.length + whole.length ≤ width then whole
  else if 4 * (usagePrefix.length + prog.length) ≤ 3 * width then
    let indent := usagePrefix.length + prog.length + 1
    let first := if opts.isEmpty then pos else opts
    let head := match fill usagePrefix.length indent (prog :: first) with
      | [] => []
      | l :: ls => " ".intercalate l :: indented indent ls
    let tail := if opts.isEmpty then [] else indented indent (fill indent indent pos)
    "\n".intercalate (head ++ tail)
  else
    let indent := usagePrefix.length
    let together := fill indent indent (opts ++ pos)
    let lines := if together.length > 1 then
        indented indent (fill indent indent opts) ++ indented indent (fill indent indent pos)
      else indented indent together
    "\n".intercalate (prog :: lines)

/-- The usage line of a command. -/
def usage (g : Grammar) (c : Command) : String :=
  usagePrefix ++
    usageBody (g.progOf c.path) (optionItems c.options)
      ((c.positional.map Positional.usageParts).getD []) ++ "\n"

/-- The entries of a command's help, each as written and with its help text,
at its indentation. -/
def entries (c : Command) : List (Nat × String × Option String) :=
  let opts := c.options.map fun o => (2, o.invocation, some o.help)
  let pos := match c.positional with
    | some p@(.word _ _ _ help) => [(2, p.metavarText, some help)]
    | some p@(.commands _ _ names) =>
      (2, p.metavarText, none) :: names.map fun (n, h) => (4, n, some h)
    | none => []
  opts ++ pos

/-- The column in which a command's help texts start. -/
def helpColumn (c : Command) : Nat :=
  let widest := ((entries c).map fun (_, inv, _) => inv.length + 2).foldl max 0
  min (widest + 2) maxHelpColumn

/-- One entry: how the item is written, then its help text, wrapped. -/
def entry (column : Nat) (indent : Nat) (invocation : String) (help : Option String) : String :=
  match help with
  | none => spaces indent ++ invocation ++ "\n"
  | some h =>
    let lines := wrap (max (width - column) 11) h
    let fits := invocation.length ≤ column - indent - 2
    let head := if fits then spaces indent ++ padRight invocation (column - indent - 2) ++ "  "
      else spaces indent ++ invocation ++ "\n"
    match lines with
    | [] => if fits then head ++ "\n" else head
    | l :: ls =>
      head ++ (if fits then "" else spaces column) ++ l ++ "\n" ++
        String.join (ls.map fun x => spaces column ++ x ++ "\n")

/-- The sections of a command's help, each with its title. -/
def sections (c : Command) : List String :=
  let column := helpColumn c
  let positional := match c.positional with
    | some p@(.word _ _ _ help) => ["positional arguments:\n" ++ entry column 2 p.metavarText (some help)]
    | _ => []
  let options := if c.options.isEmpty then [] else
    ["options:\n" ++ String.join (c.options.map fun o => entry column 2 o.invocation (some o.help))]
  let commands := match c.positional with
    | some p@(.commands _ title names) =>
      [title ++ ":\n" ++ entry column 2 p.metavarText none ++
        String.join (names.map fun (n, h) => entry column 4 n (some h))]
    | _ => []
  positional ++ options ++ commands

/-- The help of a command: its usage line and its sections. -/
def text (g : Grammar) (c : Command) : String :=
  usage g c ++ String.join ((sections c).map ("\n" ++ ·))

end Help
end Cli
end Firewall
