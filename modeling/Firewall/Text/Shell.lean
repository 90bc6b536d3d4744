import Firewall.Fault

/-!
# Shell words

A command line splits into words as a POSIX shell splits them, without
expansions: blanks (space, tab, carriage return, line feed) separate words;
single quotes keep everything up to the closing quote; double quotes keep
everything up to the closing quote, where a backslash escapes only a double
quote or a backslash and is kept before any other character; outside quotes a
backslash escapes the next character.  Quotes that close at once still make a
word, the empty one.  A quote left open and a backslash at the very end are
faults.
-/

namespace Firewall
namespace Text

/-- Whether a character separates shell words. -/
def isShellBlank (c : Char) : Bool := c == ' ' || c == '\t' || c == '\r' || c == '\n'

/-- Where the splitter is: between words, in a word, inside single or double
quotes, or just after a backslash (remembering where it came from). -/
inductive ShellState where
  | between
  | word
  | single
  | double
  | escaped (inDouble : Bool)
deriving Repr, DecidableEq

/-- Split the characters into shell words; `cur` is the current word (last
character first) and `started` says whether a word has begun. -/
def shellSplit (st : ShellState) (cur : List Char) (started : Bool) :
    List Char → Except Fault (List String)
  | [] =>
    match st with
    | .single | .double => .error .unclosedQuote
    | .escaped _ => .error .danglingEscape
    | _ => .ok (if started then [String.ofList cur.reverse] else [])
  | c :: rest =>
    match st with
    | .between =>
      if isShellBlank c then shellSplit .between [] false rest
      else if c == '\\' then shellSplit (.escaped false) [] true rest
      else if c == Char.ofNat 39 then shellSplit .single [] true rest
      else if c == '"' then shellSplit .double [] true rest
      else shellSplit .word [c] true rest
    | .word =>
      if isShellBlank c then do
        pure (String.ofList cur.reverse :: (← shellSplit .between [] false rest))
      else if c == '\\' then shellSplit (.escaped false) cur true rest
      else if c == Char.ofNat 39 then shellSplit .single cur true rest
      else if c == '"' then shellSplit .double cur true rest
      else shellSplit .word (c :: cur) true rest
    | .single =>
      if c == Char.ofNat 39 then shellSplit .word cur true rest
      else shellSplit .single (c :: cur) true rest
    | .double =>
      if c == '"' then shellSplit .word cur true rest
      else if c == '\\' then shellSplit (.escaped true) cur true rest
      else shellSplit .double (c :: cur) true rest
    | .escaped inDouble =>
      if inDouble then
        if c == '"' || c == '\\' then shellSplit .double (c :: cur) true rest
        else shellSplit .double (c :: '\\' :: cur) true rest
      else shellSplit .word (c :: cur) true rest

/-- The shell words of a command line. -/
def shellWords (s : String) : Except Fault (List String) :=
  shellSplit .between [] false s.toList

end Text
end Firewall
