/-!
# File paths

Paths are texts of `/`-separated pieces.  A path is read as a root and its
parts: the root is `""` for a relative path, `"/"`, or `"//"` for exactly two
leading slashes (more than two count as one); the parts are the pieces less
the empty ones and `.`.  The normal form writes the root and the parts back,
and is `.` when both are empty.

Joining a name to a directory appends the name's parts to the directory's,
unless the name is absolute; the directory part of a path drops its last part,
and its name is that last part.
-/

namespace Firewall
namespace Path

/-- The texts between the slashes of a path. -/
def pieces (p : String) : List String := (p.toList.splitOn '/').map String.ofList

/-- The root of a path: `"//"` for exactly two leading slashes, `"/"` for one
or more than two, and `""` for a relative path. -/
def root (p : String) : String :=
  if p.startsWith "//" && !p.startsWith "///" then "//"
  else if p.startsWith "/" then "/"
  else ""

/-- The parts of a path: its pieces, less the empty ones and `.`. -/
def parts (p : String) : List String := (pieces p).filter fun s => !s.isEmpty && s != "."

/-- The path of a root and parts, `.` when both are empty. -/
def build (root : String) (parts : List String) : String :=
  let body := "/".intercalate parts
  if root.isEmpty && body.isEmpty then "." else root ++ body

/-- The normal form of a path text. -/
def normalize (p : String) : String := build (root p) (parts p)

/-- Join a directory and a name, in normal form: an absolute name stands for
itself. -/
def join (dir name : String) : String :=
  if name.startsWith "/" then normalize name else build (root dir) (parts dir ++ parts name)

/-- The last part of a path, empty when it has none. -/
def fileName (p : String) : String := (parts p).getLast?.getD ""

/-- The directory part of a path: its root and parts but the last. -/
def parent (p : String) : String := build (root p) (parts p).dropLast

/-- A path as seen from a working directory: an absolute path stands as it
is, a relative one is joined to the directory. -/
def resolve (cwd p : String) : String :=
  if p.startsWith "/" then normalize p else join cwd p

end Path
end Firewall
