import Mathlib.Algebra.Group.Nat.Defs
import ForgeSync.Forge.Memory
import ForgeSync.Proofs.Forge.Footprint

/-!
# Calls to the forge in memory

How one call ends: with a failure that awaited it, which leaves every repository as it was, or with
the answer of its body. Most bodies look at one repository and put back what becomes of it, so that
nothing else changes.

Main statements: `ends_answer`, `ends_onProject` and `Becomes.trans`.
-/

namespace ForgeSync.Forge.Memory

variable {α : Type} {s : State} {call : Call}

/-! ## Parts of a state -/

@[simp] theorem projects_record (s : State) (call : Call) : (s.record call).projects = s.projects :=
  rfl

@[simp] theorem failures_record (s : State) (call : Call) : (s.record call).failures = s.failures :=
  rfl

@[simp] theorem lastId_record (s : State) (call : Call) : (s.record call).lastId = s.lastId :=
  rfl

@[simp] theorem halted_record (s : State) (call : Call) : (s.record call).halted = s.halted :=
  rfl

@[simp] theorem calls_checkWord (s : State) (n : Nat) : (s.checkWord n).calls = s.calls :=
  rfl

@[simp] theorem projects_takeId (s : State) : s.takeId.projects = s.projects :=
  rfl

@[simp] theorem failures_takeId (s : State) : s.takeId.failures = s.failures :=
  rfl

@[simp] theorem failures_put (s : State) (path : String) (project : Project) :
    (s.put path project).failures = s.failures :=
  rfl

@[simp] theorem lastId_put (s : State) (path : String) (project : Project) :
    (s.put path project).lastId = s.lastId :=
  rfl

@[simp] theorem halted_put (s : State) (path : String) (project : Project) :
    (s.put path project).halted = s.halted :=
  rfl

/-- The program goes on where no position is computed, or one that fits in a word. -/
theorem checkPosition_eq_self {path : String} {project : Project} {position : Nat}
    (hproject : s.projects[path]? = some project)
    (h : project.files = ∅ ∨ position < 2 ^ 64) : s.checkPosition path position = s := by
  have hfits : (if (s.projects[path]?).any (!·.files.isEmpty) then position else 0) <
      Text.bound64 := by
    rw [hproject, Option.any_some]
    rcases h with hempty | hlt
    · simp [hempty, Text.bound64]
    · split
      · exact hlt
      · decide
  rw [State.checkPosition, State.checkWord, decide_eq_false (Nat.not_le.2 hfits), Bool.or_false]

theorem projects_put (s : State) (path : String) (project : Project) :
    (s.put path project).projects = s.projects.insert path project :=
  rfl

@[simp] theorem getElem?_put_self (s : State) (path : String) (project : Project) :
    (s.put path project).projects[path]? = some project := by
  simp [projects_put]

/-- A repository that is put back as it was changes nothing. -/
theorem put_of_getElem? {path : String} {project : Project}
    (h : s.projects[path]? = some project) : s.put path project = s := by
  have hsame : s.projects.insert path project = s.projects := by
    apply Std.ExtTreeMap.ext_getElem?
    intro key
    rw [Std.ExtTreeMap.getElem?_insert]
    split
    · rename_i heq
      rw [← Std.LawfulEqCmp.eq_of_compare heq, h]
    · rfl
  rw [State.put, hsame]

theorem failures_ne_empty {message : String} (h : s.failureOf call = some message) :
    s.failures ≠ ∅ := by
  intro hempty
  simp [State.failureOf, hempty] at h

/-! ## Taking identifiers -/

theorem toNat_add_ofNat {id : UInt64} {n : Nat} (h : id.toNat + n < 2 ^ 64) :
    (id + UInt64.ofNat n).toNat = id.toNat + n := by
  rw [UInt64.toNat_add, UInt64.toNat_ofNat_of_lt' (by change n < 2 ^ 64; omega), Nat.mod_eq_of_lt h]

/-- Whether the program has halted when so many identifiers more were taken. -/
def State.haltsBy (s : State) (n : Nat) : Bool :=
  s.halted || Text.bound64 ≤ s.lastId.toNat + n

theorem halted_takeId (s : State) : s.takeId.halted = s.haltsBy 1 :=
  rfl

theorem haltsBy_of_lt {n : Nat} (h : s.lastId.toNat + n < 2 ^ 64) : s.haltsBy n = s.halted := by
  have hfits : s.lastId.toNat + n < Text.bound64 := h
  rw [State.haltsBy, decide_eq_false (Nat.not_le.2 hfits), Bool.or_false]

theorem haltsBy_of_le {n : Nat} (h : 2 ^ 64 ≤ s.lastId.toNat + n) : s.haltsBy n = true := by
  have hover : Text.bound64 ≤ s.lastId.toNat + n := h
  rw [State.haltsBy, decide_eq_true hover, Bool.or_true]

theorem haltsBy_zero (s : State) : s.haltsBy 0 = s.halted :=
  haltsBy_of_lt s.lastId.toNat_lt

/-- It has halted before the last of them if the counter could not give that many. -/
theorem haltsBy_add {t : State} {m : Nat} (hlast : t.lastId = s.lastId + UInt64.ofNat m)
    (hhalted : t.halted = s.haltsBy m) (n : Nat) : t.haltsBy n = s.haltsBy (m + n) := by
  by_cases hfits : s.lastId.toNat + m < 2 ^ 64
  · rw [State.haltsBy, hhalted, haltsBy_of_lt hfits, hlast, toNat_add_ofNat hfits, Nat.add_assoc]
    rfl
  · have hover : 2 ^ 64 ≤ s.lastId.toNat + (m + n) := by omega
    rw [haltsBy_of_le hover, State.haltsBy, hhalted, haltsBy_of_le (Nat.not_lt.1 hfits),
      Bool.true_or]

/-! ## How a call ends -/

section Ending

variable {onOk : α → State → Prop} {onError : Failure → State → Prop}

theorem ends_answer_of_none {body : State → Except Failure α × State}
    (h : s.failureOf call = none) :
    (answer call body).Ends s onOk onError ↔
      (Act.ofFunction body).Ends (s.record call) onOk onError := by
  unfold Act.Ends answer
  rw [Act.runFrom_ofFunction, h]
  rfl

theorem ends_answer_of_some {body : State → Except Failure α × State} {message : String}
    (h : s.failureOf call = some message) :
    (answer call body).Ends s onOk onError ↔ onError (.provider message) (s.record call) := by
  unfold Act.Ends answer
  rw [Act.runFrom_ofFunction, h]

theorem ends_answer {body : State → Except Failure α × State}
    (hfailed : s.failures ≠ ∅ → ∀ message, onError (.provider message) (s.record call))
    (hbody : (Act.ofFunction body).Ends (s.record call) onOk onError) :
    (answer call body).Ends s onOk onError := by
  cases hfailure : s.failureOf call with
  | some message => exact (ends_answer_of_some hfailure).2 (hfailed (failures_ne_empty hfailure) _)
  | none => exact (ends_answer_of_none hfailure).2 hbody

theorem ends_onProject {path : String} {project : Project}
    (hproject : s.projects[path]? = some project)
    {body : Project → Except Failure (α × Project)}
    (hok : ∀ a after, body project = .ok (a, after) → onOk a (s.put path after))
    (herror : ∀ failure, body project = .error failure → onError failure s) :
    (Act.ofFunction (onProject path body)).Ends s onOk onError := by
  unfold Act.Ends
  rw [Act.runFrom_ofFunction, onProject, hproject]
  dsimp only
  cases hbody : body project with
  | error failure => exact herror failure hbody
  | ok result => exact hok result.1 result.2 hbody

end Ending

/-- A call is recorded, and then it may be answered. -/
theorem moves_answer_of {R : State → State → Prop} {body : State → Except Failure α × State}
    (hrecord : ∀ s, R s (s.record call)) (hbody : ∀ s, R s (body (s.record call)).2) :
    Act.Moves R (answer call body) := by
  intro s
  rw [answer, Act.runFrom_ofFunction]
  split
  · exact hrecord s
  · exact hbody s

theorem moves_answer {R : State → State → Prop} (hR : Act.Chains R)
    {body : State → Except Failure α × State} (hrecord : ∀ s, R s (s.record call))
    (hbody : ∀ s, R s (body s).2) : Act.Moves R (answer call body) :=
  moves_answer_of hrecord fun s => hR.trans (hrecord s) (hbody _)

/-! ## Calls that read -/

/-- The two states differ in their logs only. -/
structure Reads (s t : State) : Prop where
  projects : t.projects = s.projects
  lastId : t.lastId = s.lastId
  failures : t.failures = s.failures
  halted : t.halted = s.halted

theorem reads_chains : Act.Chains Reads where
  refl _ := ⟨rfl, rfl, rfl, rfl⟩
  trans h h' := ⟨h'.projects.trans h.projects, h'.lastId.trans h.lastId,
    h'.failures.trans h.failures, h'.halted.trans h.halted⟩

theorem reads_record (s : State) (call : Call) : Reads s (s.record call) :=
  ⟨rfl, rfl, rfl, rfl⟩

variable {site : Site} {path : String}

/-! ## Changes at one path -/

variable {t u : State} {m n : Nat}

/-- From one state to the next a path got a repository, or lost it, and so many identifiers were
taken. The program has halted if the counter could not give them all. -/
structure Becomes (path : String) (after : Option Project) (taken : Nat) (s t : State) : Prop where
  here : t.projects[path]? = after
  others : ∀ other, other ≠ path → t.projects[other]? = s.projects[other]?
  lastId : t.lastId = s.lastId + UInt64.ofNat taken
  failures : t.failures = s.failures
  halted : t.halted = s.haltsBy taken

theorem Becomes.trans {first second : Option Project} (h : Becomes path first m s t)
    (h' : Becomes path second n t u) : Becomes path second (m + n) s u where
  here := h'.here
  others other hne := (h'.others other hne).trans (h.others other hne)
  lastId := by rw [h'.lastId, h.lastId, UInt64.ofNat_add, UInt64.add_assoc]
  failures := h'.failures.trans h.failures
  halted := by rw [h'.halted, haltsBy_add h.lastId h.halted]

theorem Becomes.cast {after : Option Project} (h : Becomes path after m s t) (hmn : m = n) :
    Becomes path after n s t :=
  hmn ▸ h

theorem Becomes.lastId_eq {after : Option Project} (h : Becomes path after 0 s t) :
    t.lastId = s.lastId := by
  rw [h.lastId]
  simp

theorem becomes_of_reads (h : Reads s t) : Becomes path s.projects[path]? 0 s t where
  here := by rw [h.projects]
  others other _ := by rw [h.projects]
  lastId := by rw [h.lastId]; simp
  failures := h.failures
  halted := by rw [h.halted, haltsBy_zero]

theorem becomes_put (path : String) (after : Project) (s : State) :
    Becomes path (some after) 0 s (s.put path after) where
  here := getElem?_put_self s path after
  others other hne := by simp [projects_put, Std.ExtTreeMap.getElem?_insert, hne.symm]
  lastId := by simp
  failures := rfl
  halted := by rw [halted_put, haltsBy_zero]

/-- What becomes of a forge is determined but for the log. -/
theorem Becomes.reads {after : Option Project} (h : Becomes path after n s t)
    (h' : Becomes path after n s u) : Reads t u where
  projects := by
    apply Std.ExtTreeMap.ext_getElem?
    intro other
    by_cases hpath : other = path
    · rw [hpath, h.here, h'.here]
    · rw [h.others other hpath, h'.others other hpath]
  lastId := by rw [h.lastId, h'.lastId]
  failures := by rw [h.failures, h'.failures]
  halted := by rw [h.halted, h'.halted]

/-! ## Looking at a repository -/

theorem ends_getProject :
    ((forge site).getProject path).Ends s
      (fun remote after => remote = s.projects[path]?.map (·.repository) ∧
        after = s.record (.getProject path))
      fun _ after => s.failures ≠ ∅ ∧ after = s.record (.getProject path) :=
  ends_answer (fun hfailures _ => ⟨hfailures, rfl⟩) ⟨rfl, rfl⟩

/-! ## Which repositories there are -/

/-- A repository that is there stays. -/
def Stays (path : String) (before after : State) : Prop :=
  path ∈ before.projects → path ∈ after.projects

/-- A repository that is not there does not come. -/
def StaysAway (path : String) (before after : State) : Prop :=
  path ∈ after.projects → path ∈ before.projects

theorem stays_chains (path : String) : Act.Chains (Stays path) :=
  ⟨fun _ => id, fun h h' => h' ∘ h⟩

theorem staysAway_chains (path : String) : Act.Chains (StaysAway path) :=
  ⟨fun _ => id, fun h h' => h ∘ h'⟩

theorem mem_onProject {at' : String} {body : Project → Except Failure (α × Project)} :
    path ∈ (onProject at' body s).2.projects ↔ path ∈ s.projects := by
  unfold onProject
  split
  · rfl
  · rename_i project hproject
    split
    · rfl
    · have hat' : at' ∈ s.projects := by
        rw [Std.ExtTreeMap.mem_iff_isSome_getElem?, hproject]
        rfl
      rw [projects_put, Std.ExtTreeMap.mem_insert, or_iff_right_of_imp]
      intro heq
      rwa [← Std.LawfulEqCmp.eq_of_compare heq]

/-- Only a deletion takes a repository away. -/
theorem respects_stays (site : Site) (path : String) :
    (forge site).Respects (fun call => ∀ at', call ≠ .deleteProject at') (Stays path) := by
  intro call hcall
  cases call <;>
    refine Act.moves_map.2 (moves_answer (stays_chains path) (fun _ => id) fun s => ?_)
  case getProject => exact id
  case createProject =>
      unfold createProject
      dsimp only
      split
      · exact id
      · exact fun h => Std.ExtTreeMap.mem_insert.2 (.inr h)
  case deleteProject at' => exact (hcall at' rfl).elim
  case addDeployKey => exact (mem_onProject (s := s.takeId)).2
  case createAccessToken => exact (mem_onProject (s := s.takeId)).2
  case listTreePage => exact (mem_onProject (s := s.checkPosition _ _)).2
  all_goals exact mem_onProject.2

/-- Only a creation brings a repository. -/
theorem respects_staysAway (site : Site) (path : String) :
    (forge site).Respects (fun call => ∀ space name description,
      call ≠ .createProject space name description) (StaysAway path) := by
  intro call hcall
  cases call <;>
    refine Act.moves_map.2 (moves_answer (staysAway_chains path) (fun _ => id) fun s => ?_)
  case getProject => exact id
  case createProject space name description => exact (hcall space name description rfl).elim
  case deleteProject =>
      unfold deleteProject
      split
      · exact fun h => (Std.ExtTreeMap.mem_erase.1 h).2
      · exact id
  case addDeployKey => exact (mem_onProject (s := s.takeId)).1
  case createAccessToken => exact (mem_onProject (s := s.takeId)).1
  case listTreePage => exact (mem_onProject (s := s.checkPosition _ _)).1
  all_goals exact mem_onProject.1

/-- After an attempt to delete a repository that did not fail otherwise, there is none. -/
theorem ends_deleteRepository {repo : Descriptor} :
    ((forge site).deleteRepository repo).Ends s
      (fun _ after => repo.fullPath ∉ after.projects) fun _ _ => True := by
  unfold Forge.deleteRepository
  rw [Act.ends_bind, Act.ends_attempt]
  apply ends_answer (fun _ message => by simp [Failure.isNotFound])
  unfold Act.Ends deleteProject
  rw [Act.runFrom_ofFunction]
  by_cases hmem : repo.fullPath ∈ (s.record (.deleteProject repo.fullPath)).projects
  · rw [if_pos hmem]
    simp
  · rw [if_neg hmem]
    simpa [noProject, Failure.isNotFound] using hmem

end ForgeSync.Forge.Memory
