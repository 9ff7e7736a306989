import ForgeSync.Convergence.Files
import ForgeSync.Proofs.Scripted.Calls

/-!
# A commit needs a complete listing

Template files are compared with the paths of a listing that comes in pages. A listing is complete
if it came to its end without a failure, or if the forge knows of no listing at all. From any other
one nothing is planned: a path that was not listed would be taken for a file that is missing.

Main statements: `ends_walkTree_asks` tells which pages a walk asks for and what it makes of them,
and `syncFiles_commits` that it takes a complete listing for a commit.
-/

namespace ForgeSync.Forge

variable {σ : Type} {forge : Forge σ} {path : String} {log : σ → List Call}

/-- A page that was asked for with a cursor, and what came of it. -/
structure AskedPage where
  cursor : Option String
  answer : Except Failure TreePage

namespace AskedPage

/-- The paths that a page gave. -/
def paths (asked : AskedPage) : List String :=
  match asked.answer with
  | .ok page => page.paths
  | .error _ => []

/-- A page that names no other one: nothing, an empty text, or what it was asked for with. -/
def IsLast (asked : AskedPage) : Prop :=
  ∃ page, asked.answer = .ok page ∧
    (page.nextPage = none ∨ page.nextPage = some "" ∨ page.nextPage = asked.cursor)

end AskedPage

/-- Pages are asked for one after another, from a cursor on. Each further one is asked for with the
cursor that the page before it names. -/
inductive Asks (forge : Forge σ) (path : String) :
    Option String → σ → List AskedPage → σ → Prop
  | none (cursor : Option String) (s : σ) : Asks forge path cursor s [] s
  | one {cursor answer s t} (hpage : (forge.listTreePage path cursor).runFrom s = (answer, t)) :
      Asks forge path cursor s [⟨cursor, answer⟩] t
  | more {cursor page next asked s t u}
      (hpage : (forge.listTreePage path cursor).runFrom s = (.ok page, t))
      (hnext : page.nextPage = some next) (hrest : Asks forge path (some next) t asked u) :
      Asks forge path cursor s (⟨cursor, .ok page⟩ :: asked) u

/-- A listing that came to its end: every page was given, and the last one names no other. -/
structure IsListing (asked : List AskedPage) : Prop where
  given : ∀ page ∈ asked, page.answer.isOk = true
  ended : ∃ last, asked.getLast? = some last ∧ last.IsLast

/-- A repository whose first page does not exist has no files. -/
def IsUnlisted (asked : List AskedPage) : Prop :=
  ∃ what, asked = [⟨none, .error (.notFound what)⟩]

/-- All paths of a repository are known. -/
def IsComplete (asked : List AskedPage) : Prop :=
  IsListing asked ∨ IsUnlisted asked

/-- The paths that any of the pages gave. -/
def listedPaths (asked : List AskedPage) : PathSet :=
  (∅ : PathSet).insertMany (asked.flatMap (·.paths))

/-! ## Pages -/

section Pages

variable {cursor : Option String} {answer : Except Failure TreePage} {page : TreePage}
  {failure : Failure} {next : String} {asked : List AskedPage} {s t : σ}

theorem Asks.log_eq (hlog : forge.Records log) (h : Asks forge path cursor s asked t) :
    log t = log s ++ asked.map (.listTreePage path ·.cursor) := by
  have hcall : ∀ cursor s, log ((forge.listTreePage path cursor).runFrom s).2 =
      log s ++ [.listTreePage path cursor] :=
    fun cursor => hlog.log_runFrom (.listTreePage path cursor) rfl
  induction h with
  | none => simp
  | @one cursor answer s t hpage => simpa [hpage] using hcall cursor s
  | @more cursor page next asked s t u hpage hnext hrest ih =>
    have hlog' : log t = log s ++ [.listTreePage path cursor] := by
      simpa [hpage] using hcall cursor s
    rw [ih, hlog', List.append_assoc]
    rfl

/-- What is asked for with a cursor is not a first page. -/
theorem Asks.not_isUnlisted (h : Asks forge path (some next) s asked t) : ¬IsUnlisted asked := by
  rintro ⟨what, rfl⟩
  nomatch h

theorem nextCursor_eq_none_iff :
    nextCursor cursor page = none ↔
      page.nextPage = none ∨ page.nextPage = some "" ∨ page.nextPage = cursor := by
  rw [nextCursor, Option.filter_eq_none_iff]
  cases page.nextPage with
  | none => simp
  | some next => by_cases hempty : next = "" <;> simp [hempty, @eq_comm _ cursor]

theorem not_isComplete_nil : ¬IsComplete [] := by
  rintro (⟨-, last, hlast, -⟩ | ⟨what, hwhat⟩) <;> simp_all

theorem isComplete_error_iff (cursor : Option String) (failure : Failure) :
    IsComplete [⟨cursor, .error failure⟩] ↔ failure.isNotFound = true ∧ cursor.isNone = true := by
  rw [Failure.isNotFound_iff, Option.isNone_iff_eq_none]
  constructor
  · rintro (⟨hgiven, -⟩ | ⟨what, hwhat⟩)
    · simpa [Except.isOk, Except.toBool] using hgiven _ List.mem_cons_self
    · simp_all
  · rintro ⟨⟨what, rfl⟩, rfl⟩
    exact .inr ⟨what, rfl⟩

theorem isListing_last (h : nextCursor cursor page = none) : IsListing [⟨cursor, .ok page⟩] where
  given := by simp [Except.isOk, Except.toBool]
  ended := ⟨_, rfl, page, rfl, nextCursor_eq_none_iff.1 h⟩

/-- A page that names another one leaves it to that one to end the listing. -/
theorem isListing_cons_iff (h : nextCursor cursor page = some next) :
    IsListing (⟨cursor, .ok page⟩ :: asked) ↔ IsListing asked := by
  have hok : (Except.ok page : Except Failure TreePage).isOk = true := rfl
  constructor
  · rintro ⟨hgiven, last, hlast, hend⟩
    cases asked with
    | nil =>
      -- the page is not the last one
      obtain rfl : _ = last := by simpa using hlast
      obtain ⟨page, ⟨rfl⟩, hend⟩ := hend
      rw [nextCursor_eq_none_iff.2 hend] at h
      cases h
    | cons second rest =>
      rw [List.getLast?_cons_cons] at hlast
      exact ⟨fun other hother => hgiven other (List.mem_cons_of_mem _ hother), last, hlast, hend⟩
  · rintro ⟨hgiven, last, hlast, hend⟩
    exact ⟨by simpa [hok] using hgiven, last, by simp [List.getLast?_cons, hlast], hend⟩

theorem isComplete_cons_iff (h : nextCursor cursor page = some next)
    (hasked : Asks forge path (some next) s asked t) :
    IsComplete (⟨cursor, .ok page⟩ :: asked) ↔ IsComplete asked := by
  have hunlisted : ¬IsUnlisted (⟨cursor, .ok page⟩ :: asked) := by simp [IsUnlisted]
  simp only [IsComplete, hunlisted, hasked.not_isUnlisted, or_false]
  exact isListing_cons_iff h

end Pages

/-! ## The walk -/

/-- A walk has a value exactly if the pages that it has asked for are complete, and then its value
is the paths of all of them. -/
theorem ends_walkTree_asks (budget : Nat) (cursor : Option String) (seen : PathSet) (s : σ) :
    (forge.walkTree path budget cursor seen).Ends s
      (fun present t => ∃ asked, Asks forge path cursor s asked t ∧ IsComplete asked ∧
        present = seen.insertMany (asked.flatMap (·.paths)))
      fun _ t => ∃ asked, Asks forge path cursor s asked t ∧ ¬IsComplete asked := by
  induction budget generalizing cursor seen s with
  | zero => exact ⟨[], .none cursor s, not_isComplete_nil⟩
  | succ budget ih =>
    rw [walkTree, Act.ends_bind, Act.ends_attempt, Act.ends_iff]
    refine ⟨fun page t hpage => ?_, fun failure t hpage => ?_⟩
    · dsimp only
      cases hnext : nextCursor cursor page with
      | none => exact ⟨_, .one hpage, .inl (isListing_last hnext), by simp [AskedPage.paths]⟩
      | some next =>
        have hnamed : page.nextPage = some next := (Option.filter_eq_some_iff.1 hnext).1
        apply (ih (some next) (seen.insertMany page.paths) t).mono
        · rintro _ u ⟨asked, hasked, hcomplete, rfl⟩
          refine ⟨_, .more hpage hnamed hasked, (isComplete_cons_iff hnext hasked).2 hcomplete, ?_⟩
          rw [List.flatMap_cons, Std.ExtTreeSet.insertMany_append]
          rfl
        · rintro _ u ⟨asked, hasked, hcomplete⟩
          exact ⟨_, .more hpage hnamed hasked, mt (isComplete_cons_iff hnext hasked).1 hcomplete⟩
    · have hcomplete := isComplete_error_iff cursor failure
      dsimp only
      split
      next h => exact ⟨_, .one hpage, hcomplete.2 (by simpa using h), by simp [AskedPage.paths]⟩
      next h => exact ⟨_, .one hpage, mt hcomplete.1 (by simpa using h)⟩

/-- The files of a repository are listed with the first page asked for without a cursor. -/
theorem ends_fetchTree_asks (s : σ) :
    (forge.fetchTree path).Ends s
      (fun present t => ∃ asked, Asks forge path none s asked t ∧ IsComplete asked ∧
        present = listedPaths asked)
      fun _ t => ∃ asked, Asks forge path none s asked t ∧ ¬IsComplete asked := by
  rw [fetchTree, Act.ends_bind, Act.ends_get]
  exact ends_walkTree_asks (forge.pageBudget s) none ∅ s

/-! ## Commits -/

/-- A commit is sent exactly if the listing is complete and leaves something to be changed. What is
sent is the plan from all paths that were listed, as one commit, after all pages. -/
theorem syncFiles_commits (hlog : forge.Records log) (repo : Descriptor) (branch : Option String)
    (s : σ) :
    ∃ asked t, Asks forge repo.fullPath none s asked t ∧
      let actions := planActions repo.templateFiles (listedPaths asked)
      let pages := asked.map fun page => Call.listTreePage repo.fullPath page.cursor
      let after := log ((forge.syncFiles repo branch).runFrom s).2
      (IsComplete asked ∧ actions ≠ [] ∧
        after = log s ++ pages ++ [.createCommit repo.fullPath (branch.getD "main")
          "repokeeper: sync template files" actions]) ∨
      (¬(IsComplete asked ∧ actions ≠ []) ∧ after = log s ++ pages) := by
  by_cases hempty : repo.templateFiles.isEmpty = true
  · refine ⟨[], s, .none none s, .inr ⟨fun h => not_isComplete_nil h.1, ?_⟩⟩
    rw [syncFiles, if_pos hempty]
    simp
  rw [syncFiles, if_neg hempty]
  rcases hfetch : (forge.fetchTree repo.fullPath).runFrom s with ⟨failure | present, t⟩
  · obtain ⟨asked, hasked, hcomplete⟩ := (ends_fetchTree_asks s).of_error hfetch
    refine ⟨asked, t, hasked, .inr ⟨fun h => hcomplete h.1, ?_⟩⟩
    rw [Act.runFrom_bind_of_error hfetch, hasked.log_eq hlog]
  · obtain ⟨asked, hasked, hcomplete, rfl⟩ := (ends_fetchTree_asks s).of_ok hfetch
    refine ⟨asked, t, hasked, ?_⟩
    intro actions pages after
    simp only [after, Act.runFrom_bind_of_ok hfetch]
    by_cases hactions : actions = []
    · refine .inr ⟨fun h => h.2 hactions, ?_⟩
      rw [if_pos (List.isEmpty_iff.2 hactions)]
      exact hasked.log_eq hlog
    · refine .inl ⟨hcomplete, hactions, ?_⟩
      rw [if_neg (mt List.isEmpty_iff.1 hactions), ← hasked.log_eq hlog]
      rw [bind_pure_comp, Act.runFrom_map]
      exact hlog.log_runFrom (.createCommit repo.fullPath (branch.getD "main")
        "repokeeper: sync template files" actions) rfl t

/-- A second page that names itself ends the listing, and the paths of both pages are planned from.
If there is no second page, nothing is sent. -/
theorem syncFiles_commits_secondPage :
    let repo : Descriptor :=
      { path := "acme", repoName := "r"
        templateFiles := (((∅ : Table FileOp).insert "a.yml" (.write "A")).insert "b.yml" .delete)
          |>.insert "c.yml" (.write "C") }
    let first : Except Failure TreePage := .ok { paths := ["a.yml"], nextPage := some "2" }
    let calls second := (((Scripted.forge "https://git.example").syncFiles repo none).runFrom
      { script.listTreePage := [first, second] }).2.calls
    let pages : List Call := [.listTreePage "acme/r" none, .listTreePage "acme/r" (some "2")]
    (∃ asked, IsComplete asked ∧
      planActions repo.templateFiles (listedPaths asked) = [.delete "b.yml", .create "c.yml" "C"] ∧
      calls (.ok { paths := ["b.yml"], nextPage := some "2" }) = pages ++
        [.createCommit "acme/r" "main" "repokeeper: sync template files"
          (planActions repo.templateFiles (listedPaths asked))]) ∧
    calls (.error (.notFound "page")) = pages := by
  intro repo first calls pages
  refine ⟨?_, by decide +kernel⟩
  have hcalls : calls (.ok { paths := ["b.yml"], nextPage := some "2" }) = pages ++
      [.createCommit "acme/r" "main" "repokeeper: sync template files"
        [.delete "b.yml", .create "c.yml" "C"]] := by decide +kernel
  obtain ⟨asked, t, -, ⟨hcomplete, -, hsent⟩ | ⟨-, hsent⟩⟩ :=
    syncFiles_commits (Scripted.records "https://git.example") repo none
      { script.listTreePage := [first, .ok { paths := ["b.yml"], nextPage := some "2" }] }
  · change calls _ = _ at hsent
    rw [hcalls] at hsent
    obtain ⟨-, hactions⟩ := List.append_inj' hsent (by simp)
    replace hactions : planActions repo.templateFiles (listedPaths asked) =
        [.delete "b.yml", .create "c.yml" "C"] := by
      simp only [List.cons.injEq, Call.createCommit.injEq] at hactions
      exact hactions.1.2.2.2.symm
    exact ⟨asked, hcomplete, hactions, by rw [hcalls, hactions]⟩
  · change calls _ = _ at hsent
    rw [hcalls] at hsent
    -- a commit is not one of the pages
    have hmem := hsent ▸ List.mem_append_right pages List.mem_cons_self
    simp at hmem

end ForgeSync.Forge
