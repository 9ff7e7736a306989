import ForgeSync.Forge.Basic
import ForgeSync.Forge.Call

/-!
# A forge that plays a script

A forge without any state of its own: it answers every call with the next prepared outcome of its
operation and records the call. Where nothing is prepared it answers as an empty forge that
accepts every change would, except that it cannot make up what a creation gives.
-/

namespace ForgeSync.Forge.Scripted

/-- The prepared outcomes of each operation, in order. -/
structure Script where
  getProject : List (Except Failure (Option RemoteRepository)) := []
  createProject : List (Except Failure RemoteRepository) := []
  editDescription : List (Except Failure Unit) := []
  deleteProject : List (Except Failure Unit) := []
  archiveProject : List (Except Failure Unit) := []
  listDeployKeys : List (Except Failure (List RemoteDeployKey)) := []
  addDeployKey : List (Except Failure Unit) := []
  deleteDeployKey : List (Except Failure Unit) := []
  listTreePage : List (Except Failure TreePage) := []
  createCommit : List (Except Failure Unit) := []
  updateVariable : List (Except Failure Unit) := []
  createVariable : List (Except Failure Unit) := []
  deleteVariable : List (Except Failure Unit) := []
  listAccessTokens : List (Except Failure (List AccessTokenRecord)) := []
  createAccessToken : List (Except Failure AccessTokenRecord) := []
  deriving Inhabited

/-- A prepared outcome as data: a value under `ok`, or a failure under `err`. -/
def decodeOutcome? {α : Type} (failure : Datum → Failure) (value : Datum → Option α)
    (d : Datum) : Option (Except Failure α) :=
  match d.fields? ["ok", "err"] with
  | some [_, some f] => some (.error (failure f))
  | some [ok, none] => (value (ok.getD .null)).map .ok
  | _ => none

/-- A script as data: under the short name of each operation a list of outcomes. -/
def Script.decode? (failure : Datum → Failure) (d : Datum) : Option Script := do
  let queue {α : Type} (name : String) (value : Datum → Option α) :
      Option (List (Except Failure α)) :=
    match d with
    | .map members =>
      match Datum.lookup? members name with
      | some outcomes => outcomes.listOf? (decodeOutcome? failure value)
      | none => some []
    | _ => some []
  let done : Datum → Option Unit := fun _ => some ()
  return {
    getProject := ← queue "get_project" (Datum.optional? RemoteRepository.decode?)
    createProject := ← queue "create_project" RemoteRepository.decode?
    editDescription := ← queue "edit_description" done
    deleteProject := ← queue "delete_project" done
    archiveProject := ← queue "archive_project" done
    listDeployKeys := ← queue "list_keys" (Datum.listOf? RemoteDeployKey.decode?)
    addDeployKey := ← queue "add_key" done
    deleteDeployKey := ← queue "delete_key" done
    listTreePage := ← queue "tree_page" TreePage.decode?
    createCommit := ← queue "commit" done
    updateVariable := ← queue "update_var" done
    createVariable := ← queue "create_var" done
    deleteVariable := ← queue "delete_var" done
    listAccessTokens := ← queue "list_tokens" (Datum.listOf? AccessTokenRecord.decode?)
    createAccessToken := ← queue "create_token" AccessTokenRecord.decode? }

structure State where
  script : Script := {}
  calls : List Call := []
  deriving Inhabited

/-- Answers with the next outcome of a queue of the script, or with `fallback` at its end. -/
def play {α : Type} (queue : Focus Script (List (Except Failure α)))
    (fallback : Except Failure α) (call : Call) : Act State α :=
  Act.ofFunction fun s =>
    let calls := s.calls ++ [call]
    match queue.get s.script with
    | [] => (fallback, { s with calls })
    | outcome :: rest => (outcome, { script := queue.set rest s.script, calls })

def unscripted : Failure :=
  .provider "unscripted"

/-- The forge that plays a script, at an address. -/
def forge (baseUrl : String) : Forge State where
  providerType := "scripted"
  baseUrl
  pageBudget s := s.script.listTreePage.length + 1
  getProject path := play ⟨(·.getProject), fun q s => { s with getProject := q }⟩ (.ok none)
    (.getProject path)
  createProject space name description :=
    play ⟨(·.createProject), fun q s => { s with createProject := q }⟩ (.error unscripted)
      (.createProject space name description)
  editDescription path description :=
    play ⟨(·.editDescription), fun q s => { s with editDescription := q }⟩ (.ok ())
      (.editDescription path description)
  deleteProject path := play ⟨(·.deleteProject), fun q s => { s with deleteProject := q }⟩ (.ok ())
    (.deleteProject path)
  archiveProject path :=
    play ⟨(·.archiveProject), fun q s => { s with archiveProject := q }⟩ (.ok ())
      (.archiveProject path)
  listDeployKeys path :=
    play ⟨(·.listDeployKeys), fun q s => { s with listDeployKeys := q }⟩ (.ok [])
      (.listDeployKeys path)
  addDeployKey path title key :=
    play ⟨(·.addDeployKey), fun q s => { s with addDeployKey := q }⟩ (.ok ())
      (.addDeployKey path title key)
  deleteDeployKey path id :=
    play ⟨(·.deleteDeployKey), fun q s => { s with deleteDeployKey := q }⟩ (.ok ())
      (.deleteDeployKey path id)
  listTreePage path page :=
    play ⟨(·.listTreePage), fun q s => { s with listTreePage := q }⟩ (.ok {})
      (.listTreePage path page)
  createCommit path branch message actions :=
    play ⟨(·.createCommit), fun q s => { s with createCommit := q }⟩ (.ok ())
      (.createCommit path branch message actions)
  updateVariable path v :=
    play ⟨(·.updateVariable), fun q s => { s with updateVariable := q }⟩ (.ok ())
      (.updateVariable path v)
  createVariable path v :=
    play ⟨(·.createVariable), fun q s => { s with createVariable := q }⟩ (.ok ())
      (.createVariable path v)
  deleteVariable path key :=
    play ⟨(·.deleteVariable), fun q s => { s with deleteVariable := q }⟩ (.ok ())
      (.deleteVariable path key)
  listAccessTokens path :=
    play ⟨(·.listAccessTokens), fun q s => { s with listAccessTokens := q }⟩ (.ok [])
      (.listAccessTokens path)
  createAccessToken path request :=
    play ⟨(·.createAccessToken), fun q s => { s with createAccessToken := q }⟩
      (.error unscripted) (.createAccessToken path request)

end ForgeSync.Forge.Scripted
