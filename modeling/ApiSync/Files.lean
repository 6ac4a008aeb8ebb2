import ApiSync.Path
/-!
File trees as values: a node is a file with its text or a directory with named entries.

A program that reads files gets the tree; what it writes is a new tree.
-/

namespace ApiSync

inductive Node where
  | file (text : String)
  | dir (entries : List (String × Node))
deriving Inhabited

namespace Node

def empty : Node := .dir []

def child? (entries : List (String × Node)) (name : String) : Option Node :=
  (entries.find? (·.1 = name)).map (·.2)

/-- The node that the names lead to. -/
def find? : Node → List String → Option Node
  | n, [] => some n
  | .file _, _ :: _ => none
  | .dir entries, name :: rest => (child? entries name).bind (·.find? rest)

def isFile : Node → Bool
  | .file _ => true
  | .dir _ => false

def isDir : Node → Bool
  | .file _ => false
  | .dir _ => true

def setEntry (entries : List (String × Node)) (name : String) (node : Node) :
    List (String × Node) :=
  if entries.any (·.1 = name) then
    entries.map fun e => if e.1 = name then (name, node) else e
  else entries ++ [(name, node)]

def entriesOf : Node → List (String × Node)
  | .dir entries => entries
  | .file _ => []

/-- Puts a node where the names lead, with the directories on the way. -/
def put (node : Node) : List String → Node → Node
  | [], _ => node
  | name :: rest, here =>
    let entries := here.entriesOf
    .dir (setEntry entries name (put node rest ((child? entries name).getD empty)))

/-- Makes a directory unless something is there. -/
def makeDir (tree : Node) (path : List String) : Node :=
  match tree.find? path with
  | some _ => tree
  | none => put empty path tree

/-! ## Walking -/

def byName (a b : String × α) : Bool := Text.nameLe a.1 b.1

mutual

/-- The paths of the files below a node, each directory in the order of its names. -/
def walk : Node → List (List String)
  | .file _ => [[]]
  | .dir entries =>
    ((walkEntries entries).mergeSort byName).flatMap fun e => e.2.map (e.1 :: ·)

def walkEntries : List (String × Node) → List (String × List (List String))
  | [] => []
  | (name, node) :: rest => (name, walk node) :: walkEntries rest

end

def isPythonFile (path : List String) : Bool :=
  path.getLast?.any fun name => Text.hasSuffix name ".py"

/-- The source files below a directory. -/
def pythonFiles (node : Node) : List (List String) :=
  if node.isDir then node.walk.filter isPythonFile else []

end Node

/-- A file system is the tree at its top directory. -/
abbrev Files := Node

namespace Files

def at? (files : Files) (path : String) : Option Node := files.find? (Path.names path)

def exists? (files : Files) (path : String) : Bool := (files.at? path).isSome

def isFile (files : Files) (path : String) : Bool := (files.at? path).any Node.isFile

def isDir (files : Files) (path : String) : Bool := (files.at? path).any Node.isDir

/-- The text of a file; nothing for directories and missing paths. -/
def read? (files : Files) (path : String) : Option String :=
  match files.at? path with
  | some (.file text) => some text
  | _ => none

def write (files : Files) (path text : String) : Files :=
  Node.put (.file text) (Path.names path) files

/-- Whether a file can be written at a path: no directory is there, and no file stands where
a directory above it has to be. -/
def canWrite (files : Files) (path : String) : Bool :=
  let ns := Path.names path
  let above := (List.range ns.length).map ns.take
  !files.isDir path && above.all fun dir => (files.find? dir).all Node.isDir

/-- The absolute path and the text of each file, in the order of the walk. -/
def texts (files : Files) : List (String × String) :=
  files.walk.filterMap fun ns =>
    let path := Path.ofNames ns
    (files.read? path).map (path, ·)

/-- The files of `after` that are not in `before` with the same text. -/
def changes (before after : Files) : List (String × String) :=
  after.texts.filter fun file => before.read? file.1 ≠ some file.2

def makeDir (files : Files) (path : String) : Files := Node.makeDir files (Path.names path)

/-- The absolute paths of the source files below a root; none if it is no directory. -/
def pythonFiles (files : Files) (root : String) : List String :=
  match files.at? root with
  | none => []
  | some node => node.pythonFiles.map fun path => Path.ofNames (Path.names root ++ path)

end Files
end ApiSync
