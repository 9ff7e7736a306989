import Mathlib.Data.List.Induction
import Mathlib.Data.List.Nodup
import ForgeSync.Convergence.Operation
import ForgeSync.Proofs.Memory.Hosting
import ForgeSync.Proofs.Memory.Log

/-!
# Reachable forges

A forge in memory is arranged and called. Whatever happens reaches one repository at most, and a
deploy key that comes to it has the identifier that was given last; a call that fails reaches none.
So, as long as the counter does not run over, all deploy keys have identifiers of their own, and
none of them is still to come. The counter runs over only where the program halts.

Main statements: `reachable_foldl`, `ends_performCall`, `Reachable.hosts` and
`Reachable.keys_apart_and_failures_harmless`.
-/

namespace ForgeSync.Forge.Memory

/-- Something that happens to a forge. -/
inductive Deed where
  | seedProject (path : String)
  | seedFile (path file content : String)
  | seedDeployKey (path title key : String) (canPush : Bool)
  | seedVariable (path : String) (v : CiVariable)
  | seedToken (path : String) (token : AccessTokenRecord)
  | failOn (pattern message : String)
  | clearFailures
  | clearCalls
  | call (c : Call)

/-- The state after a deed. -/
def State.play (site : Site) (s : State) : Deed → State
  | .seedProject path => s.seedProject site path
  | .seedFile path file content => s.seedFile path file content
  | .seedDeployKey path title key canPush => s.seedDeployKey path title key canPush
  | .seedVariable path v => s.seedVariable path v
  | .seedToken path token => s.seedToken path token
  | .failOn pattern message => s.failOn pattern message
  | .clearFailures => s.clearFailures
  | .clearCalls => s.clearCalls
  | .call c => ((Operation.performCall (forge site) c).runFrom s).2

/-- The states that a forge can be brought to while its counter does not run over. -/
inductive Reachable (site : Site) : State → Prop where
  | start : Reachable site {}
  | step {s : State} (deed : Deed) : Reachable site s → s.lastId ≤ (s.play site deed).lastId →
      Reachable site (s.play site deed)

variable {α : Type} {s t : State} {site : Site} {path : String} {project : Project}

/-! ## While the program runs -/

/-- Where the program has not halted afterwards it had not halted before either, and its counter has
not run over in between. -/
def Onward (s t : State) : Prop :=
  t.halted = false → s.halted = false ∧ s.lastId ≤ t.lastId

theorem onward_of_eq (hlast : t.lastId = s.lastId) (hhalted : t.halted = s.halted) : Onward s t :=
  fun hruns => ⟨hhalted ▸ hruns, hlast ▸ UInt64.le_refl _⟩

theorem onward_chains : Act.Chains Onward where
  refl _ := onward_of_eq rfl rfl
  trans h h' hruns :=
    have hmid := h' hruns
    have hstart := h hmid.1
    ⟨hstart.1, UInt64.le_trans hstart.2 hmid.2⟩

theorem onward_takeId (s : State) : Onward s s.takeId := by
  intro hruns
  rw [halted_takeId, State.haltsBy, Bool.or_eq_false_iff, decide_eq_false_iff_not, Nat.not_le]
    at hruns
  refine ⟨hruns.1, UInt64.le_iff_toNat_le.2 ?_⟩
  rw [toNat_lastId_takeId hruns.2]
  exact Nat.le_succ _

theorem onward_checkPosition (path : String) (position : Nat) (s : State) :
    Onward s (s.checkPosition path position) :=
  fun hruns => ⟨(Bool.or_eq_false_iff.1 hruns).1, UInt64.le_refl _⟩

theorem onward_onProject (path : String) (body : Project → Except Failure (α × Project))
    (s : State) : Onward s (onProject path body s).2 := by
  unfold onProject
  split
  · exact onward_of_eq rfl rfl
  · split <;> exact onward_of_eq rfl rfl

theorem onward_modifyProject (path : String) (f : Project → Project) (s : State) :
    Onward s (s.modifyProject path f) := by
  unfold State.modifyProject
  split <;> exact onward_of_eq rfl rfl

theorem respects_onward (site : Site) : (forge site).Respects (fun _ => True) Onward := by
  intro call _
  cases call <;>
    refine Act.moves_map.2 (moves_answer onward_chains (fun _ => onward_of_eq rfl rfl) fun s => ?_)
  case getProject => exact onward_of_eq rfl rfl
  case createProject =>
      unfold createProject
      dsimp only
      split
      · exact onward_of_eq rfl rfl
      · exact onward_takeId s
  case deleteProject =>
      unfold deleteProject
      split <;> exact onward_of_eq rfl rfl
  case addDeployKey => exact onward_chains.trans (onward_takeId s) (onward_onProject _ _ _)
  case createAccessToken => exact onward_chains.trans (onward_takeId s) (onward_onProject _ _ _)
  case listTreePage =>
      exact onward_chains.trans (onward_checkPosition _ _ s) (onward_onProject _ _ _)
  all_goals exact onward_onProject _ _ s

/-- A token that is seeded raises the counter to its identifier. -/
theorem le_raised (last id : UInt64) : last ≤ max last id ∧ id ≤ max last id := by
  change (last ≤ if last ≤ id then id else last) ∧ id ≤ if last ≤ id then id else last
  split
  · exact ⟨‹_›, UInt64.le_refl _⟩
  · exact ⟨UInt64.le_refl _, UInt64.le_of_lt (UInt64.not_le.1 ‹_›)⟩

theorem onward_play (site : Site) (s : State) (deed : Deed) : Onward s (s.play site deed) := by
  cases deed with
  | seedProject path => exact onward_takeId s
  | seedFile => exact onward_modifyProject _ _ s
  | seedDeployKey => exact onward_chains.trans (onward_takeId s) (onward_modifyProject _ _ _)
  | seedVariable => exact onward_modifyProject _ _ s
  | seedToken path token =>
      have hmax : Onward s { s with lastId := max s.lastId token.uid } :=
        fun hruns => ⟨hruns, (le_raised _ _).1⟩
      exact onward_chains.trans hmax (onward_modifyProject _ _ _)
  | failOn | clearFailures | clearCalls => exact onward_of_eq rfl rfl
  | call c => exact respects_onward site c trivial s

/-- Where a forge is arranged and called, and the program has not halted, a reachable state is
reached. -/
theorem reachable_foldl (deeds : List Deed)
    (h : (deeds.foldl (State.play site) {}).halted = false) :
    Reachable site (deeds.foldl (State.play site) {}) := by
  induction deeds using List.reverseRecOn with
  | nil => exact .start
  | append_singleton deeds deed ih =>
      rw [List.foldl_append] at h ⊢
      obtain ⟨hruns, hle⟩ := onward_play site _ deed h
      exact (ih hruns).step deed hle

namespace State

/-- The deploy keys of the repository at a path, if there is one. -/
def keysAt (s : State) (path : String) : List RemoteDeployKey :=
  match s.projects[path]? with
  | none => []
  | some project => project.deployKeys

/-- The identifiers of all deploy keys, one repository after the other. -/
def keyIds (s : State) : List UInt64 :=
  s.projects.keys.flatMap fun path => (s.keysAt path).map (·.id)

theorem keysAt_of_getElem? (h : s.projects[path]? = some project) :
    s.keysAt path = project.deployKeys := by
  rw [keysAt, h]

theorem keysAt_of_none (h : s.projects[path]? = none) : s.keysAt path = [] := by
  rw [keysAt, h]

theorem keysAt_congr (h : t.projects[path]? = s.projects[path]?) :
    t.keysAt path = s.keysAt path := by
  rw [keysAt, keysAt, h]

theorem mem_keyIds {id : UInt64} : id ∈ s.keyIds ↔ ∃ path, ∃ key ∈ s.keysAt path, key.id = id := by
  simp only [keyIds, List.mem_flatMap, List.mem_map, Std.ExtTreeMap.mem_keys]
  constructor
  · intro hid
    obtain ⟨path, -, key, hkey, rfl⟩ := hid
    exact ⟨path, key, hkey, rfl⟩
  · intro hid
    obtain ⟨path, key, hkey, rfl⟩ := hid
    refine ⟨path, ?_, key, hkey, rfl⟩
    by_contra habsent
    rw [keysAt_of_none (Std.ExtTreeMap.getElem?_eq_none habsent)] at hkey
    cases hkey

end State

/-! ## One step -/

/-- The deploy keys of a repository before and after a step from `s` to `t`: some may have gone, or
one came, with the identifier that was given last. -/
def KeysMove (s t : State) (before after : List RemoteDeployKey) : Prop :=
  after.Sublist before ∨
    ∃ key, after = before ++ [key] ∧ key.id = s.takeId.lastId ∧ t.lastId = s.takeId.lastId

theorem keysMove_refl (s t : State) (keys : List RemoteDeployKey) : KeysMove s t keys keys :=
  .inl (List.Sublist.refl keys)

theorem keysMove_concat {key : RemoteDeployKey} (hid : key.id = s.takeId.lastId)
    (hlast : t.lastId = s.takeId.lastId) (keys : List RemoteDeployKey) :
    KeysMove s t keys (keys ++ [key]) :=
  .inr ⟨key, rfl, hid, hlast⟩

/-- From one state to the next a single repository may have come, gone or changed. -/
structure Reaches (path : String) (s t : State) : Prop where
  others : ∀ other, other ≠ path → t.projects[other]? = s.projects[other]?
  keys : KeysMove s t (s.keysAt path) (t.keysAt path)

theorem reaches_of_projects (path : String) (h : t.projects = s.projects) : Reaches path s t where
  others other _ := by rw [h]
  keys := by
    rw [State.keysAt_congr (s := s) (t := t) (by rw [h])]
    exact keysMove_refl s t _

/-- A repository is put in the place of another one, or of none. -/
theorem reaches_put (hprojects : t.projects = s.projects) {after : Project}
    (hkeys : KeysMove s t (s.keysAt path) after.deployKeys) :
    Reaches path s (t.put path after) where
  others other hne := by simp [projects_put, Std.ExtTreeMap.getElem?_insert, hne.symm, hprojects]
  keys := by
    rw [State.keysAt_of_getElem? (getElem?_put_self t path after)]
    exact hkeys

/-- A new repository has no deploy keys. -/
theorem reaches_new (hprojects : t.projects = s.projects) (site : Site) (id : UInt64)
    (path description : String) :
    Reaches path s (t.put path (newProject site id path description)) :=
  reaches_put hprojects (.inl (List.nil_sublist _))

theorem reaches_erase (path : String) :
    Reaches path s { t with projects := s.projects.erase path } where
  others other hne := by simp [Std.ExtTreeMap.getElem?_erase, hne.symm]
  keys := by
    rw [State.keysAt_of_none (s := { t with projects := s.projects.erase path }) (by simp)]
    exact .inl (List.nil_sublist _)

theorem reaches_modifyProject (hprojects : t.projects = s.projects) {f : Project → Project}
    (hkeys : ∀ project, KeysMove s t project.deployKeys (f project).deployKeys) :
    Reaches path s (t.modifyProject path f) := by
  unfold State.modifyProject
  split
  · exact reaches_of_projects path hprojects
  · rename_i project hfound
    refine reaches_put hprojects ?_
    rw [State.keysAt_of_getElem? (hprojects ▸ hfound)]
    exact hkeys project

/-- How a call ends that looks at one repository and puts back what becomes of it. -/
theorem ends_onProject_reaches {body : Project → Except Failure (α × Project)}
    (hprojects : t.projects = s.projects)
    (hkeys : ∀ project a after, body project = .ok (a, after) →
      KeysMove s t project.deployKeys after.deployKeys) :
    (Act.ofFunction (onProject path body)).Ends t (fun _ u => ∃ path, Reaches path s u)
      fun _ u => u.projects = s.projects := by
  cases hfound : t.projects[path]? with
  | none =>
      unfold Act.Ends onProject
      rw [Act.runFrom_ofFunction, hfound]
      exact hprojects
  | some project =>
      refine ends_onProject hfound (fun a after hbody => ?_) fun _ _ => hprojects
      refine ⟨path, reaches_put hprojects ?_⟩
      rw [State.keysAt_of_getElem? (hprojects ▸ hfound)]
      exact hkeys project a after hbody

/-- A call that is answered reaches one repository, and a call that fails reaches none. -/
theorem ends_performCall (site : Site) (call : Call) (s : State) :
    (Operation.performCall (forge site) call).Ends s (fun _ t => ∃ path, Reaches path s t)
      fun _ t => t.projects = s.projects := by
  cases call <;> refine Act.ends_map.2 (ends_answer (fun _ _ => rfl) ?_)
  case getProject path => exact ⟨path, reaches_of_projects path rfl⟩
  case createProject space name description =>
      unfold Act.Ends createProject
      rw [Act.runFrom_ofFunction]
      dsimp only
      by_cases hpresent : Descriptor.joinPath space name ∈
          (s.record (.createProject space name description)).projects
      · rw [if_pos hpresent]
        rfl
      · rw [if_neg hpresent]
        exact ⟨_, reaches_new (s := s) (t := (s.record _).takeId) rfl site _ _ _⟩
  case deleteProject path =>
      unfold Act.Ends deleteProject
      rw [Act.runFrom_ofFunction]
      by_cases hpresent : path ∈ (s.record (.deleteProject path)).projects
      · rw [if_pos hpresent]
        exact ⟨path, reaches_erase path⟩
      · rw [if_neg hpresent]
        rfl
  case addDeployKey path title key =>
      unfold addDeployKey change
      refine ends_onProject_reaches (s := s) (t := (s.record (.addDeployKey path title key)).takeId)
        rfl fun project a after hbody => ?_
      cases hbody
      exact keysMove_concat rfl rfl _
  case createAccessToken path request =>
      unfold createAccessToken
      refine ends_onProject_reaches (s := s)
        (t := (s.record (.createAccessToken path request)).takeId)
        rfl fun project a after hbody => ?_
      cases hbody
      exact keysMove_refl _ _ _
  case deleteDeployKey path id =>
      refine ends_onProject_reaches rfl fun project a after hbody => ?_
      dsimp only at hbody
      split at hbody <;> cases hbody
      exact .inl List.filter_sublist
  case listTreePage path page =>
      refine ends_onProject_reaches rfl fun project a after hbody => ?_
      cases hpage : treePage site.pageSize page project <;> rw [hpage] at hbody <;> cases hbody
      exact keysMove_refl _ _ _
  all_goals
    refine ends_onProject_reaches rfl fun project a after hbody => ?_
    first
      | cases hbody
        exact keysMove_refl _ _ _
      | split at hbody <;> cases hbody
        exact keysMove_refl _ _ _

theorem exists_reaches_play (site : Site) (s : State) (deed : Deed) :
    ∃ path, Reaches path s (s.play site deed) := by
  cases deed with
  | seedProject path => exact ⟨path, reaches_new (projects_takeId s) site _ _ _⟩
  | seedFile path file content =>
      exact ⟨path, reaches_modifyProject rfl fun _ => keysMove_refl _ _ _⟩
  | seedDeployKey path title key canPush =>
      exact ⟨path, reaches_modifyProject (projects_takeId s) fun _ => keysMove_concat rfl rfl _⟩
  | seedVariable path v => exact ⟨path, reaches_modifyProject rfl fun _ => keysMove_refl _ _ _⟩
  | seedToken path token =>
      refine ⟨path, reaches_modifyProject (s := s) ?_ fun _ => keysMove_refl _ _ _⟩
      rfl
  | failOn | clearFailures | clearCalls => exact ⟨"", reaches_of_projects "" rfl⟩
  | call c =>
      refine Act.ends_iff_runFrom.1 ((ends_performCall site c s).mono (fun _ _ => id) ?_)
      exact fun _ _ hsame => ⟨"", reaches_of_projects "" hsame⟩

/-! ## Identifiers -/

theorem room_of_le (h : s.lastId ≤ s.takeId.lastId) : s.lastId.toNat + 1 < 2 ^ 64 := by
  have hle := UInt64.le_iff_toNat_le.1 h
  have hnext : s.takeId.lastId.toNat = (s.lastId.toNat + 1) % 2 ^ 64 := UInt64.toNat_add _ _
  have hbound := s.lastId.toNat_lt
  omega

/-- All deploy keys have identifiers of their own, and the counter has passed them. -/
structure Numbered (s : State) : Prop where
  le_lastId : ∀ path, ∀ key ∈ s.keysAt path, key.id.toNat ≤ s.lastId.toNat
  distinct : ∀ path, ((s.keysAt path).map (·.id)).Nodup
  apart : ∀ path other, path ≠ other → ∀ key ∈ s.keysAt path, ∀ key' ∈ s.keysAt other,
    key.id ≠ key'.id

/-- A step that brings a deploy key takes an identifier that was not given before. -/
theorem Reaches.keysAt (h : Reaches path s t) (hle : s.lastId ≤ t.lastId) (at' : String) :
    (t.keysAt at').Sublist (s.keysAt at') ∨ at' = path ∧ ∃ key,
      t.keysAt at' = s.keysAt at' ++ [key] ∧ s.lastId.toNat < key.id.toNat ∧ key.id = t.lastId := by
  by_cases hat' : at' = path
  · subst hat'
    refine h.keys.imp id fun hcame => ⟨rfl, ?_⟩
    obtain ⟨key, hkeys, hid, hlast⟩ := hcame
    have hnext := toNat_lastId_takeId (room_of_le (s := s) (hlast ▸ hle))
    exact ⟨key, hkeys, by rw [hid, hnext]; exact Nat.lt_succ_self _, hid.trans hlast.symm⟩
  · rw [State.keysAt_congr (h.others at' hat')]
    exact .inl (List.Sublist.refl _)

/-- A deploy key was there before, or it is new and so is its identifier. -/
theorem Reaches.mem_keysAt (h : Reaches path s t) (hle : s.lastId ≤ t.lastId) {at' : String}
    {key : RemoteDeployKey} (hkey : key ∈ t.keysAt at') :
    key ∈ s.keysAt at' ∨ at' = path ∧ s.lastId.toNat < key.id.toNat ∧ key.id = t.lastId := by
  obtain hfewer | ⟨rfl, new, hkeys, hnew⟩ := h.keysAt hle at'
  · exact .inl (hfewer.subset hkey)
  · rw [hkeys, List.mem_append, List.mem_singleton] at hkey
    refine hkey.imp id fun hsame => ⟨rfl, ?_⟩
    rwa [hsame]

theorem Numbered.step (h : Numbered s) (hreaches : Reaches path s t) (hle : s.lastId ≤ t.lastId) :
    Numbered t where
  le_lastId at' key hkey := by
    obtain hold | ⟨-, -, hid⟩ := hreaches.mem_keysAt hle hkey
    · exact Nat.le_trans (h.le_lastId at' key hold) (UInt64.le_iff_toNat_le.1 hle)
    · exact Nat.le_of_eq (by rw [hid])
  distinct at' := by
    obtain hfewer | ⟨-, new, hkeys, hnew, -⟩ := hreaches.keysAt hle at'
    · exact (h.distinct at').sublist (hfewer.map _)
    · rw [hkeys, List.map_append, List.map_singleton, List.nodup_append]
      refine ⟨h.distinct at', List.nodup_singleton _, fun id hid id' hid' hsame => ?_⟩
      obtain ⟨old, hold, rfl⟩ := List.mem_map.1 hid
      have hbound := h.le_lastId at' old hold
      rw [hsame, List.mem_singleton.1 hid'] at hbound
      omega
  apart first second hne key hkey key' hkey' hsame := by
    -- only one of the two repositories can have got a key
    obtain hold | ⟨hpath, hnew, -⟩ := hreaches.mem_keysAt hle hkey <;>
      obtain hold' | ⟨hpath', hnew', -⟩ := hreaches.mem_keysAt hle hkey'
    · exact h.apart first second hne key hold key' hold' hsame
    · have hbound := h.le_lastId first key hold
      rw [hsame] at hbound
      omega
    · have hbound := h.le_lastId second key' hold'
      rw [← hsame] at hbound
      omega
    · exact hne (hpath.trans hpath'.symm)

/-! ## All that can happen -/

theorem Reachable.numbered (h : Reachable site s) : Numbered s := by
  induction h with
  | start =>
      have hnone : ∀ path, State.keysAt {} path = [] := fun path => State.keysAt_of_none (by simp)
      exact ⟨by simp [hnone], by simp [hnone], by simp [hnone]⟩
  | @step s deed _ hle ih =>
      obtain ⟨path, hreaches⟩ := exists_reaches_play site s deed
      exact ih.step hreaches hle

/-- A forge hosts all that it has. -/
theorem Reachable.hosts (h : Reachable site s) (hproject : s.projects[path]? = some project) :
    Hosts path project s := by
  have hkeys := State.keysAt_of_getElem? hproject
  exact ⟨hproject, hkeys ▸ h.numbered.distinct path, hkeys ▸ h.numbered.le_lastId path⟩

theorem Numbered.nodup_keyIds (h : Numbered s) : s.keyIds.Nodup := by
  rw [State.keyIds, List.nodup_flatMap]
  refine ⟨fun path _ => h.distinct path, ?_⟩
  refine Std.ExtTreeMap.nodup_keys.imp fun hne => ?_
  intro id hid hid'
  obtain ⟨key, hkey, rfl⟩ := List.mem_map.1 hid
  obtain ⟨key', hkey', hsame⟩ := List.mem_map.1 hid'
  exact h.apart _ _ hne key hkey key' hkey' hsame.symm

/-- All deploy keys of all repositories have identifiers of their own, and the counter has passed
them. A call that fails, whatever it asks for and whichever failures await calls, leaves every
repository as it was, and is recorded once. -/
theorem Reachable.keys_apart_and_failures_harmless (h : Reachable site s) :
    s.keyIds.Nodup ∧ (∀ id ∈ s.keyIds, id ≤ s.lastId) ∧
    ∀ (call : Call) (failure : Failure) (t : State),
      (Operation.performCall (forge site) call).runFrom s = (.error failure, t) →
        t.projects = s.projects ∧ t.calls = s.calls ++ [call] := by
  refine ⟨h.numbered.nodup_keyIds, fun id hid => ?_, fun call failure t hrun => ⟨?_, ?_⟩⟩
  · obtain ⟨path, key, hkey, rfl⟩ := State.mem_keyIds.1 hid
    exact UInt64.le_iff_toNat_le.2 (h.numbered.le_lastId path key hkey)
  · exact (ends_performCall site call s).of_error hrun
  · rw [← calls_performCall site call s, hrun]

/-- Two repositories with a deploy key each, and a failure that awaits a call. One of the calls
below fails although it has taken an identifier, and the other one because of that failure. -/
theorem keys_apart_and_failures_harmless_twoRepositories :
    let site : Site := ⟨"memory://git.example", 20⟩
    let s := [.seedProject "acme/r", .seedDeployKey "acme/r" "ci" "ssh-ed25519 AAAA" false,
      .seedProject "acme/s", .call (.addDeployKey "acme/s" "ci" ⟨"ssh-ed25519", "BBBB", true⟩),
      .failOn "archive_project:acme/r" "down"].foldl (State.play site) {}
    s.keyIds = [2, 4] ∧ s.keyIds.Nodup ∧ (∀ id ∈ s.keyIds, id ≤ s.lastId) ∧
    ∀ call ∈ [.addDeployKey "acme/none" "ci" ⟨"ssh-ed25519", "CCCC", false⟩,
        .archiveProject "acme/r"],
      ∃ failure t, (Operation.performCall (forge site) call).runFrom s = (.error failure, t) ∧
        t.projects = s.projects ∧ t.calls = s.calls ++ [call] := by
  intro site s
  have hreachable : Reachable site s := reachable_foldl _ (by decide +kernel)
  obtain ⟨hnodup, hle, hfailed⟩ := hreachable.keys_apart_and_failures_harmless
  refine ⟨by decide +kernel, hnodup, hle, fun call hcall => ?_⟩
  have hfails : ((Operation.performCall (forge site) call).runFrom s).1.isOk = false := by
    obtain rfl | hcall := List.mem_cons.1 hcall
    · decide +kernel
    · obtain rfl := List.mem_singleton.1 hcall
      decide +kernel
  rcases hrun : (Operation.performCall (forge site) call).runFrom s with ⟨failure | answered, t⟩
  · exact ⟨failure, t, rfl, hfailed call failure t hrun⟩
  · rw [hrun] at hfails
    cases hfails

end ForgeSync.Forge.Memory
