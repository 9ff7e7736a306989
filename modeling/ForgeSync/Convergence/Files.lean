import ForgeSync.Forge.Basic
import ForgeSync.Repository.Descriptor
import Std.Data.ExtTreeSet

/-!
# Template files

The files of a repository are brought in line with the template in one commit. Only presence
counts: a file that exists is left alone whatever it holds, so nobody's edits are overwritten.

The listing of a repository's files is followed from page to page until a page names no further
one, or names only itself. A walk has a budget of pages; a listing that exceeds it has no result.
-/

namespace ForgeSync

/-- A set of paths, listed in the order of their code points. -/
abbrev PathSet := Std.ExtTreeSet String

/-- The branch that is committed to where the forge names none. -/
def fallbackBranch : String := "main"

/-- The message of every commit. -/
def commitMessage : String := "repokeeper: sync template files"

/-- The change that a wish for one path takes, if it takes one. -/
def planAction (present : PathSet) (path : String) : FileOp → Option CommitAction
  | .write content => if path ∈ present then none else some (.create path content)
  | .delete => if path ∈ present then some (.delete path) else none

/-- The changes that make a tree conform to a template, in the order of paths. -/
def planActions (wanted : Table FileOp) (present : PathSet) : List CommitAction :=
  wanted.toList.filterMap fun (path, op) => planAction present path op

namespace Forge

variable {σ : Type} (forge : Forge σ)

/-- Where a listing goes on after a page that was asked for with a cursor. -/
def nextCursor (cursor : Option String) (page : TreePage) : Option String :=
  page.nextPage.filter fun next => !next.isEmpty && cursor ≠ some next

/-- Collects the paths of a listing, from a cursor on, within a budget of pages. -/
def walkTree (path : String) : Nat → Option String → PathSet → Act σ PathSet
  | 0, _, _ => throw .unfinished
  | budget + 1, cursor, seen => do
    match ← (forge.listTreePage path cursor).attempt with
    | .error failure =>
      if failure.isNotFound && cursor.isNone then return seen else throw failure
    | .ok page =>
      let seen := seen.insertMany page.paths
      match nextCursor cursor page with
      | none => return seen
      | some next => walkTree path budget (some next) seen

/-- The paths of all files. A repository without files has no listing, and so no paths. -/
def fetchTree (path : String) : Act σ PathSet := do
  walkTree forge path (forge.pageBudget (← get)) none ∅

/-- Commits the template files that are missing or have to go; tells how many there were. -/
def syncFiles (repo : Descriptor) (branch : Option String) : Act σ Nat := do
  if repo.templateFiles.isEmpty then return 0
  let present ← forge.fetchTree repo.fullPath
  let actions := planActions repo.templateFiles present
  if actions.isEmpty then return 0
  forge.createCommit repo.fullPath (branch.getD fallbackBranch) commitMessage actions
  return actions.length

end Forge

end ForgeSync
