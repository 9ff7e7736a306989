import ForgeSync.Datum

/-!
# Files under a directory

The text files that a command sees, by their path from the directory in which it runs. Two paths
are one if they differ only in steps that lead nowhere. A directory exists if it holds a file or
is listed.

Main statement: `read?_insert` says that what was written is read.
-/

namespace ForgeSync

/-- One more step of a path that is held in reverse. -/
def pathStep (done : List String) (step : String) : List String :=
  if step = "" ∨ step = "." then done
  else if step = ".." then
    match done with
    | [] => [".."]
    | last :: rest => if last = ".." ∨ last = "/" then step :: done else rest
  else step :: done

/-- The steps of a path. A path from the root keeps the root as its first step. -/
def pathSteps (path : String) : List String :=
  let start := if path.startsWith "/" then ["/"] else []
  ((path.splitOn "/").foldl pathStep start).reverse

/-- The directory in which a path lies. -/
def parentPath (path : String) : String :=
  "/".intercalate (pathSteps path).dropLast

/-- A path in a directory. -/
def joinPath (directory name : String) : String :=
  if directory.isEmpty ∨ directory.endsWith "/" then directory ++ name
  else directory ++ "/" ++ name

structure FileTree where
  files : Table String := ∅
  /-- Directories that exist also without a file. -/
  directories : List String := []
  deriving DecidableEq, Inhabited

namespace FileTree

/-- The one spelling of a path under which a file is kept. -/
def place (path : String) : String :=
  "/".intercalate (pathSteps path)

/-- Whether a path can only mean a directory. -/
def isDirectoryPath (path : String) : Bool :=
  (pathSteps path).isEmpty || path.endsWith "/"

/-- Whether there is a directory. -/
def hasDirectory (tree : FileTree) (steps : List String) : Bool :=
  steps.isEmpty || (tree.directories.any fun directory => pathSteps directory = steps) ||
    tree.files.keys.any fun file =>
      let fileSteps := pathSteps file
      steps.length < fileSteps.length && steps.isPrefixOf fileSteps

/-- The content of a file. -/
def read? (tree : FileTree) (path : String) : Option String :=
  if isDirectoryPath path then none else tree.files[place path]?

def insert (tree : FileTree) (path content : String) : FileTree :=
  { tree with files := tree.files.insert (place path) content }

/-- Files from their paths and contents. -/
def ofList (entries : List (String × String)) : FileTree :=
  entries.foldl (fun tree (path, content) => tree.insert path content) {}

/-- Writes a file; its directory has to exist. -/
def write? (tree : FileTree) (path content : String) : Option FileTree :=
  let steps := pathSteps path
  if isDirectoryPath path || tree.hasDirectory steps || !tree.hasDirectory steps.dropLast then none
  else some (tree.insert path content)

theorem read?_insert {path : String} (h : isDirectoryPath path = false) (tree : FileTree)
    (content : String) : (tree.insert path content).read? path = some content := by
  simp [read?, insert, h]

end FileTree

end ForgeSync
