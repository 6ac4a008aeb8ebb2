import ApiSync.Text
/-!
Absolute paths as text, with `/` between their names.
-/

namespace ApiSync
namespace Path

/-- The names between the slashes, empty ones included. -/
def pieces (path : String) : List String := Text.splitText '/' path

/-- Works off `.` and `..` from left to right; above the top there is nothing.  The
accumulator holds the names so far, last first. -/
def settle (above : List String) : List String → List String
  | [] => above.reverse
  | name :: rest =>
    if name = "" || name = "." then settle above rest
    else if name = ".." then settle (above.drop 1) rest
    else settle (name :: above) rest

/-- The names of an absolute path. -/
def names (path : String) : List String := settle [] (pieces path)

def ofNames (ns : List String) : String := "/" ++ "/".intercalate ns

def isAbsolute (path : String) : Bool := Text.hasPrefix path "/"

/-- The absolute path that `path` means in the directory `cwd`. -/
def resolve (cwd path : String) : String :=
  if isAbsolute path then ofNames (names path) else ofNames (names (cwd ++ "/" ++ path))

/-- Puts a relative path behind a directory; a slash at the very end stays. -/
def join (dir path : String) : String :=
  let whole := dir ++ "/" ++ path
  let ns := names whole
  let final := if path = "" then dir else path
  if Text.hasSuffix final "/" && ns ≠ [] then ofNames ns ++ "/" else ofNames ns

/-- The directory that holds the path; the top holds itself. -/
def parent (path : String) : String := ofNames (names path).dropLast

/-- The last name of a path; slashes at its end do not count. -/
def baseName (path : String) : String :=
  ((pieces path).reverse.dropWhile (· = "")).head?.getD ""

/-- The last name from its last point on; a point at its start does not count. -/
def extension (path : String) : String :=
  let base := (baseName path).toList
  let tail := base.reverse.takeWhile (· ≠ '.')
  if tail.length + 1 < base.length then String.ofList ('.' :: tail.reverse) else ""

def dropCommon : List String → List String → List String × List String
  | a :: as, b :: bs => if a = b then dropCommon as bs else (a :: as, b :: bs)
  | as, bs => (as, bs)

/-- The way from one directory to a path. -/
def relative (start path : String) : String :=
  let (up, down) := dropCommon (names start) (names path)
  "/".intercalate (up.map (fun _ => "..") ++ down)

end Path
end ApiSync
