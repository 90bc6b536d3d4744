/-!
# Lines and words of a text

Unicode gives two classes of characters that cut a text apart:

- *line boundaries*: line feed, carriage return (alone or followed by a line
  feed, which then belongs to the same boundary), vertical tab, form feed, the
  information separators 0x1C to 0x1E, next line, and the line and paragraph
  separators;
- *white space*: the line boundaries, tab, 0x1F, the space characters of
  category Zs, and the no-break spaces.

A text splits into lines at its boundaries; a boundary at the very end opens
no further line.  It splits into words at runs of white space.
-/

namespace Firewall
namespace Text

/-- Whether a character ends a line. -/
def isLineBreak (c : Char) : Bool :=
  c == '\n' || c == '\r' || c == '\x0b' || c == '\x0c' || c == '\x1c' || c == '\x1d' ||
    c == '\x1e' || c == '\x85' || c == '\u2028' || c == '\u2029'

/-- Whether a character is white space. -/
def isSpace (c : Char) : Bool :=
  let n := c.toNat
  c == ' ' || c == '\t' || isLineBreak c || c == '\x1f' || c == '\xa0' || c == '\u1680' ||
    (0x2000 ≤ n && n ≤ 0x200A) || c == '\u202f' || c == '\u205f' || c == '\u3000'

/-- The lines of a character list, each followed by its boundary when
`keepEnds` is set; `cur` holds the current line, last character first. -/
def linesFrom (keepEnds : Bool) (cur : List Char) : List Char → List (List Char)
  | [] => if cur.isEmpty then [] else [cur.reverse]
  | '\r' :: '\n' :: rest =>
    (if keepEnds then cur.reverse ++ ['\r', '\n'] else cur.reverse) :: linesFrom keepEnds [] rest
  | c :: rest =>
    if isLineBreak c then
      (if keepEnds then cur.reverse ++ [c] else cur.reverse) :: linesFrom keepEnds [] rest
    else linesFrom keepEnds (c :: cur) rest

/-- The lines of a character list. -/
def linesOf (keepEnds : Bool) (cs : List Char) : List (List Char) := linesFrom keepEnds [] cs

/-- The lines of a text, without their boundaries. -/
def lines (s : String) : List String := (linesOf false s.toList).map String.ofList

/-- The lines of a text, each with its boundary. -/
def linesWithEnds (s : String) : List String := (linesOf true s.toList).map String.ofList

/-- The words of a character list: its maximal runs without white space;
`cur` holds the current word, last character first. -/
def wordsFrom (cur : List Char) : List Char → List (List Char)
  | [] => if cur.isEmpty then [] else [cur.reverse]
  | c :: rest =>
    if isSpace c then
      if cur.isEmpty then wordsFrom [] rest else cur.reverse :: wordsFrom [] rest
    else wordsFrom (c :: cur) rest

/-- The words of a text. -/
def words (s : String) : List String := (wordsFrom [] s.toList).map String.ofList

/-- A text without its leading and trailing white space. -/
def strip (s : String) : String :=
  String.ofList ((s.toList.dropWhile isSpace).reverse.dropWhile isSpace).reverse

/-- A text without its trailing white space. -/
def stripEnd (s : String) : String :=
  String.ofList (s.toList.reverse.dropWhile isSpace).reverse

@[simp] theorem linesOf_nil (keepEnds : Bool) : linesOf keepEnds [] = [] := rfl

@[simp] theorem lines_empty : lines "" = [] := by
  simp [lines]

end Text
end Firewall
