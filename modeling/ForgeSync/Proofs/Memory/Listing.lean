import ForgeSync.Convergence.Files
import ForgeSync.Proofs.Memory.Calls
import ForgeSync.Proofs.Text.Decimal

/-!
# Listings of the forge in memory

The listing of a repository names all its files, whatever the size of a page. Positions and page
numbers are 64-bit words, so the program gets to the end of a listing if the files of the repository
fill no more than half of them.

Main statement: `ends_fetchTree`.
-/

namespace ForgeSync.Forge.Memory

variable {s : State} {site : Site} {path : String} {project : Project}

/-- Pages have a size that is a word, and no position on the way through the files overflows. -/
structure Countable (site : Site) (project : Project) : Prop where
  pageSize : 0 < site.pageSize
  pageSize_lt : site.pageSize < Text.bound64
  files : 2 * project.files.size ≤ Text.bound64

/-- Not even the end of a page that begins within the files. -/
theorem Countable.page_end_lt (h : Countable site project) {n : Nat}
    (hreach : n * site.pageSize < project.files.size) :
    (n + 1) * site.pageSize < Text.bound64 := by
  have hfiles := h.files
  have hsize := h.pageSize_lt
  rw [Nat.succ_mul]
  cases n with
  | zero => omega
  | succ n =>
      have hpage : site.pageSize ≤ (n + 1) * site.pageSize :=
        Nat.le_mul_of_pos_left _ n.succ_pos
      omega

/-! ## Pages -/

theorem pageNumber_toString {n : Nat} (hpos : 0 < n) (h : n < Text.bound64) :
    pageNumber (some (toString n)) = n := by
  simp only [pageNumber, Option.bind_some, Text.readBelow_toString h, Option.getD_some]
  omega

theorem treePage_of_empty (h : project.files = ∅) (page : Option String) :
    treePage site.pageSize page project = .error (.notFound "Tree Not Found") := by
  simp [treePage, h]

/-- The page behind `n` full ones. -/
def pageBehind (site : Site) (project : Project) (n : Nat) : TreePage where
  paths := (project.files.keys.drop (n * site.pageSize)).take site.pageSize
  nextPage :=
    if (n + 1) * site.pageSize < project.files.size then some (toString (n + 2)) else none

theorem nextCursor_pageBehind_of_lt {n : Nat} {cursor : Option String}
    (hmore : (n + 1) * site.pageSize < project.files.size)
    (hother : cursor ≠ some (toString (n + 2))) :
    Forge.nextCursor cursor (pageBehind site project n) = some (toString (n + 2)) := by
  simpa [Forge.nextCursor, pageBehind, hmore, Option.filter] using hother

theorem nextCursor_pageBehind_of_not_lt {n : Nat} (cursor : Option String)
    (hlast : ¬ (n + 1) * site.pageSize < project.files.size) :
    Forge.nextCursor cursor (pageBehind site project n) = none := by
  simp [Forge.nextCursor, pageBehind, hlast]

theorem treePage_of_reached {n : Nat} {page : Option String} (hpage : pageNumber page = n + 1)
    (hreach : n * site.pageSize < project.files.size) :
    treePage site.pageSize page project = .ok (pageBehind site project n) := by
  have hnonempty : project.files.isEmpty = false := by
    rw [Std.ExtTreeMap.isEmpty_eq_size_beq_zero, beq_eq_false_iff_ne]
    omega
  simp only [treePage, pageBehind, hnonempty, Bool.false_eq_true, if_false, hpage,
    Nat.add_sub_cancel]

theorem ends_listTreePage (hproject : s.projects[path]? = some project) (page : Option String)
    (hfits : project.files = ∅ ∨ pageNumber page * site.pageSize < 2 ^ 64) :
    ((forge site).listTreePage path page).Ends s
      (fun listed t => treePage site.pageSize page project = .ok listed ∧
        t = s.record (.listTreePage path page))
      fun failure t => t = s.record (.listTreePage path page) ∧
        (treePage site.pageSize page project = .error failure ∨
          s.failures ≠ ∅ ∧ failure.isNotFound = false) := by
  refine ends_answer (fun hfailures message => ⟨rfl, .inr ⟨hfailures, rfl⟩⟩) ?_
  unfold listTreePage Act.Ends
  rw [Act.runFrom_ofFunction, checkPosition_eq_self (s := s.record _) hproject hfits]
  refine ends_onProject (s := s.record _) hproject ?_ ?_
  · intro listed after hbody
    cases hpage : treePage site.pageSize page project with
    | error failure => simp [hpage, Except.map] at hbody
    | ok found =>
        simp only [hpage, Except.map, Except.ok.injEq, Prod.mk.injEq] at hbody
        obtain ⟨rfl, rfl⟩ := hbody
        exact ⟨rfl, put_of_getElem? hproject⟩
  · intro failure hbody
    cases hpage : treePage site.pageSize page project with
    | error found =>
        simp only [hpage, Except.map, Except.error.injEq] at hbody
        exact ⟨rfl, .inl (by rw [hbody])⟩
    | ok found => simp [hpage, Except.map] at hbody

/-! ## The walk -/

/-- A walk that has seen `n` full pages and may ask for more than are left. -/
theorem ends_walkTree (h : Countable site project) (hproject : s.projects[path]? = some project)
    {budget n : Nat} {cursor : Option String} {seen : PathSet}
    (hcursor : pageNumber cursor = n + 1) (hreach : n * site.pageSize < project.files.size)
    (hseen : ∀ file, file ∈ seen ↔ file ∈ project.files.keys.take (n * site.pageSize))
    (hbudget : project.files.size < n + budget) :
    ((forge site).walkTree path budget cursor seen).Ends s
      (fun present t => Reads s t ∧ ∀ file, file ∈ present ↔ file ∈ project.files)
      fun _ t => Reads s t ∧ s.failures ≠ ∅ := by
  induction budget generalizing s n cursor seen with
  | zero =>
      have hn : n ≤ n * site.pageSize := Nat.le_mul_of_pos_right n h.pageSize
      omega
  | succ budget ih =>
      unfold Forge.walkTree
      rw [Act.ends_bind, Act.ends_attempt]
      apply (ends_listTreePage hproject cursor (.inr (hcursor ▸ h.page_end_lt hreach))).mono
      · intro listed t hend
        obtain ⟨hpage, rfl⟩ := hend
        rw [treePage_of_reached hcursor hreach, Except.ok.injEq] at hpage
        subst hpage
        have hnext : ∀ file, file ∈ seen.insertMany (pageBehind site project n).paths ↔
            file ∈ project.files.keys.take ((n + 1) * site.pageSize) := by
          intro file
          rw [pageBehind, Std.ExtTreeSet.mem_insertMany_list, hseen, List.contains_iff_mem,
            Nat.succ_mul, List.take_add, List.mem_append]
        by_cases hmore : (n + 1) * site.pageSize < project.files.size
        · have hn : n + 1 ≤ (n + 1) * site.pageSize := Nat.le_mul_of_pos_right _ h.pageSize
          have hbound := h.files
          have hpos := h.pageSize
          have hnumber : pageNumber (some (toString (n + 2))) = n + 2 :=
            pageNumber_toString (by omega) (by omega)
          have hother : cursor ≠ some (toString (n + 2)) := by
            intro heq
            subst heq
            omega
          dsimp only
          rw [nextCursor_pageBehind_of_lt hmore hother]
          exact (ih (s := s.record _) hproject hnumber hmore hnext (by omega)).mono
            (fun _ _ hend => ⟨reads_chains.trans (reads_record s _) hend.1, hend.2⟩)
            fun _ _ hend => ⟨reads_chains.trans (reads_record s _) hend.1, hend.2⟩
        · dsimp only
          rw [nextCursor_pageBehind_of_not_lt cursor hmore]
          refine ⟨reads_record s _, fun file => ?_⟩
          rw [hnext, List.take_of_length_le (by rw [Std.ExtTreeMap.length_keys]; omega),
            Std.ExtTreeMap.mem_keys]
      · intro failure t hend
        rcases hend with ⟨rfl, hpage | ⟨hfailures, hnotFound⟩⟩
        · rw [treePage_of_reached hcursor hreach] at hpage
          cases hpage
        · dsimp only
          rw [hnotFound, Bool.false_and, if_neg Bool.false_ne_true]
          exact ⟨reads_record s _, hfailures⟩

theorem le_foldl_add {β : Type} (f : β → Nat) (items : List β) (n : Nat) :
    n ≤ items.foldl (fun m item => m + f item) n ∧
      ∀ item ∈ items, n + f item ≤ items.foldl (fun m item => m + f item) n := by
  induction items generalizing n with
  | nil => simp
  | cons first rest ih =>
      obtain ⟨hle, hmem⟩ := ih (n + f first)
      rw [List.foldl_cons]
      refine ⟨by omega, fun item hitem => ?_⟩
      obtain rfl | hitem := List.mem_cons.1 hitem
      · exact hle
      · have := hmem item hitem
        omega

theorem size_lt_pageBudget (hproject : s.projects[path]? = some project) :
    project.files.size < (forge site).pageBudget s := by
  have hmem : (path, project) ∈ s.projects.toList :=
    Std.ExtTreeMap.mem_toList_iff_getElem?_eq_some.2 hproject
  have hle : 1 + project.files.size ≤ (forge site).pageBudget s :=
    (le_foldl_add (fun entry : String × Project => entry.2.files.size)
      s.projects.toList 1).2 _ hmem
  omega

/-- A repository without files has no first page, and no paths. -/
theorem ends_fetchTree_of_empty (hfiles : project.files = ∅)
    (hproject : s.projects[path]? = some project) :
    ((forge site).fetchTree path).Ends s
      (fun present t => Reads s t ∧ ∀ file, file ∈ present ↔ file ∈ project.files)
      fun _ t => Reads s t ∧ s.failures ≠ ∅ := by
  unfold Forge.fetchTree
  rw [Act.ends_bind, Act.ends_get]
  obtain ⟨budget, hsucc⟩ : ∃ budget, (forge site).pageBudget s = budget + 1 := by
    have hbudget : project.files.size < (forge site).pageBudget s := size_lt_pageBudget hproject
    exact ⟨(forge site).pageBudget s - 1, by omega⟩
  rw [hsucc]
  unfold Forge.walkTree
  rw [Act.ends_bind, Act.ends_attempt]
  apply (ends_listTreePage hproject none (.inl hfiles)).mono
  · intro listed t hend
    obtain ⟨hpage, -⟩ := hend
    rw [treePage_of_empty hfiles] at hpage
    cases hpage
  · intro failure t hend
    rcases hend with ⟨rfl, hpage | ⟨hfailures, hnotFound⟩⟩
    · rw [treePage_of_empty hfiles, Except.error.injEq] at hpage
      subst hpage
      exact ⟨reads_record s _, fun file => by simp [hfiles]⟩
    · dsimp only
      rw [hnotFound, Bool.false_and, if_neg Bool.false_ne_true]
      exact ⟨reads_record s _, hfailures⟩

/-- The listing names exactly the files. -/
theorem ends_fetchTree (h : Countable site project) (hproject : s.projects[path]? = some project) :
    ((forge site).fetchTree path).Ends s
      (fun present t => Reads s t ∧ ∀ file, file ∈ present ↔ file ∈ project.files)
      fun _ t => Reads s t ∧ s.failures ≠ ∅ := by
  by_cases hfiles : project.files = ∅
  · exact ends_fetchTree_of_empty hfiles hproject
  · have hbudget : project.files.size < (forge site).pageBudget s := size_lt_pageBudget hproject
    have hsize := mt Std.ExtTreeMap.eq_empty_iff_size_eq_zero.2 hfiles
    unfold Forge.fetchTree
    rw [Act.ends_bind, Act.ends_get]
    exact ends_walkTree h hproject (n := 0) rfl (by omega) (fun file => by simp) (by omega)

end ForgeSync.Forge.Memory
