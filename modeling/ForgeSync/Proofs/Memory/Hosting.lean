import ForgeSync.Proofs.Memory.Calls

/-!
# A repository and its forge

What an operation does to one repository of the forge in memory. The forge hosts the repository
throughout: its deploy keys have identifiers of their own, and none of them is still to come. Of
the rest of the forge it matters only how many identifiers are taken, and whether a call was made
that may change something.

Main statements: `EndsVia.bind` and `endsOn_mapM` compose operations, and `ends_call` is one call.
-/

namespace ForgeSync.Forge.Memory

variable {α β γ σ : Type} {s t u : State} {path : String} {project : Project} {m n : Nat}

/-! ## Calls that may change something -/

namespace State

/-- How many calls were recorded that may change something. -/
def mutations (s : State) : Nat :=
  s.calls.countP (·.isMutating)

@[simp] theorem mutations_record (s : State) (call : Call) :
    (s.record call).mutations = s.mutations + if call.isMutating then 1 else 0 := by
  simp [mutations, record, List.countP_append, List.countP_singleton]

@[simp] theorem mutations_put (s : State) (path : String) (project : Project) :
    (s.put path project).mutations = s.mutations :=
  rfl

@[simp] theorem mutations_takeId (s : State) : s.takeId.mutations = s.mutations :=
  rfl

end State

/-! ## Hosting -/

/-- The forge has a repository at a path, and gives none of its deploy keys' identifiers again. -/
structure Hosts (path : String) (project : Project) (s : State) : Prop where
  found : s.projects[path]? = some project
  distinct : (project.deployKeys.map (·.id)).Nodup
  numbered : ∀ key ∈ project.deployKeys, key.id.toNat ≤ s.lastId.toNat

/-- From one state to the next at most so many identifiers are taken, and the program has not halted
in between. -/
structure Spends (n : Nat) (s t : State) : Prop where
  failures : t.failures = s.failures
  halted : t.halted = s.halted
  lastId_le : s.lastId.toNat ≤ t.lastId.toNat
  le_lastId : t.lastId.toNat ≤ s.lastId.toNat + n
  mutations : s.mutations ≤ t.mutations

theorem Spends.refl (n : Nat) (s : State) : Spends n s s :=
  ⟨rfl, rfl, Nat.le_refl _, Nat.le_add_right _ _, Nat.le_refl _⟩

theorem Spends.trans (h : Spends m s t) (h' : Spends n t u) : Spends (m + n) s u where
  failures := h'.failures.trans h.failures
  halted := h'.halted.trans h.halted
  lastId_le := Nat.le_trans h.lastId_le h'.lastId_le
  le_lastId := by
    have := h.le_lastId
    have := h'.le_lastId
    omega
  mutations := Nat.le_trans h.mutations h'.mutations

theorem Spends.mono (h : Spends m s t) (hle : m ≤ n) : Spends n s t :=
  ⟨h.failures, h.halted, h.lastId_le, Nat.le_trans h.le_lastId (Nat.add_le_add_left hle _),
    h.mutations⟩

theorem spends_record (s : State) (call : Call) : Spends 0 s (s.record call) :=
  ⟨rfl, rfl, Nat.le_refl _, Nat.le_refl _, by simp⟩

theorem spends_put (s : State) (path : String) (project : Project) :
    Spends 0 s (s.put path project) :=
  ⟨rfl, rfl, Nat.le_refl _, Nat.le_refl _, Nat.le_refl _⟩

theorem toNat_lastId_takeId (h : s.lastId.toNat + 1 < 2 ^ 64) :
    s.takeId.lastId.toNat = s.lastId.toNat + 1 := by
  change (s.lastId + 1).toNat = _
  rw [UInt64.toNat_add]
  exact Nat.mod_eq_of_lt h

theorem spends_takeId (h : s.lastId.toNat + 1 < 2 ^ 64) : Spends 1 s s.takeId := by
  have hnext := toNat_lastId_takeId h
  exact ⟨rfl, haltsBy_of_lt h, by omega, by omega, Nat.le_refl _⟩

theorem Hosts.of_found (h : Hosts path project s) (hspends : Spends n s t)
    (hfound : t.projects[path]? = some project) : Hosts path project t :=
  ⟨hfound, h.distinct, fun key hkey => Nat.le_trans (h.numbered key hkey) hspends.lastId_le⟩

theorem Hosts.record (h : Hosts path project s) (call : Call) :
    Hosts path project (s.record call) :=
  ⟨h.found, h.distinct, h.numbered⟩

theorem Hosts.takeId (h : Hosts path project s) (hroom : s.lastId.toNat + 1 < 2 ^ 64) :
    Hosts path project s.takeId :=
  h.of_found (spends_takeId hroom) h.found

/-- Without new deploy keys a repository stays numbered. -/
theorem Hosts.put (h : Hosts path project s) {after : Project}
    (hkeys : after.deployKeys.Sublist project.deployKeys) : Hosts path after (s.put path after) :=
  ⟨getElem?_put_self s path after, h.distinct.sublist (hkeys.map _),
    fun key hkey => h.numbered key (hkeys.subset hkey)⟩

/-- A deploy key under an identifier that was just taken is numbered as well. -/
theorem Hosts.put_takeId (h : Hosts path project s) (hroom : s.lastId.toNat + 1 < 2 ^ 64)
    {after : Project}
    (hkeys : (after.deployKeys.map (·.id)).Sublist
      (project.deployKeys.map (·.id) ++ [s.takeId.lastId])) :
    Hosts path after (s.takeId.put path after) := by
  have hnext := toNat_lastId_takeId hroom
  have hfresh : s.takeId.lastId ∉ project.deployKeys.map (·.id) := by
    rw [List.mem_map]
    intro hid
    obtain ⟨key, hkey, hid⟩ := hid
    have := h.numbered key hkey
    rw [hid] at this
    omega
  refine ⟨getElem?_put_self _ path after, List.Nodup.sublist hkeys ?_, fun key hkey => ?_⟩
  · rw [List.nodup_append]
    refine ⟨h.distinct, by simp, fun id hid next hlast hsame => hfresh ?_⟩
    rw [← List.mem_singleton.1 hlast, ← hsame]
    exact hid
  · rw [lastId_put]
    obtain hold | hlast := List.mem_append.1 (hkeys.subset (List.mem_map_of_mem hkey))
    · obtain ⟨old, hmem, hid⟩ := List.mem_map.1 hold
      have := h.numbered old hmem
      rw [hid] at this
      omega
    · exact Nat.le_of_eq (by rw [List.mem_singleton.1 hlast])

theorem Hosts.of_becomes {after : Project} (h : Hosts path project s)
    (hbecomes : Becomes path (some after) 0 s t) (hkeys : after.deployKeys = project.deployKeys) :
    Hosts path after t :=
  ⟨hbecomes.here, by rw [hkeys]; exact h.distinct,
    by rw [hkeys, hbecomes.lastId_eq]; exact h.numbered⟩

theorem Hosts.of_reads (h : Hosts path project s) (hreads : Reads s t) : Hosts path project t :=
  ⟨by rw [hreads.projects, h.found], h.distinct, by rw [hreads.lastId]; exact h.numbered⟩

theorem Reads.spends (h : Reads s t) (hmutations : t.mutations = s.mutations) : Spends 0 s t :=
  ⟨h.failures, h.halted, Nat.le_of_eq (by rw [h.lastId]),
    Nat.le_of_eq (by rw [h.lastId, Nat.add_zero]), Nat.le_of_eq hmutations.symm⟩

/-! ## Operations on a repository -/

/-- From `s` the action ends where the forge hosts a repository at the path: as `onOk` says, or as
`onError` says if failures await calls. It takes at most `n` identifiers. -/
def EndsVia (backend : σ → State) (path : String) (n : Nat) (act : Act σ α) (s : σ)
    (onOk : α → Project → σ → Prop) (onError : Project → Prop) : Prop :=
  act.Ends s
    (fun a t => ∃ project, Hosts path project (backend t) ∧
      Spends n (backend s) (backend t) ∧ onOk a project t)
    fun _ t => (backend s).failures ≠ ∅ ∧ ∃ project, Hosts path project (backend t) ∧
      Spends n (backend s) (backend t) ∧ onError project

section Via

variable {backend : σ → State} {act : Act σ α} {s : σ} {onOk : α → Project → σ → Prop}
  {onError : Project → Prop}

theorem EndsVia.mono {onOk' : α → Project → σ → Prop} {onError' : Project → Prop}
    (h : EndsVia backend path m act s onOk onError) (hle : m ≤ n)
    (hok : ∀ a project t, onOk a project t → onOk' a project t)
    (herror : ∀ project, onError project → onError' project) :
    EndsVia backend path n act s onOk' onError' := by
  apply Act.Ends.mono h
  · intro a t hend
    obtain ⟨project, hhosts, hspends, hend⟩ := hend
    exact ⟨project, hhosts, hspends.mono hle, hok a project t hend⟩
  · intro _ t hend
    obtain ⟨hfailures, project, hhosts, hspends, hend⟩ := hend
    exact ⟨hfailures, project, hhosts, hspends.mono hle, herror project hend⟩

theorem EndsVia.imp_error {onError' : Project → Prop}
    (h : EndsVia backend path n act s onOk onError)
    (herror : ∀ project, onError project → onError' project) :
    EndsVia backend path n act s onOk onError' :=
  h.mono (Nat.le_refl n) (fun _ _ _ hend => hend) herror

theorem endsVia_pure (h : Hosts path project (backend s)) {a : α} (hok : onOk a project s) :
    EndsVia backend path n (pure a) s onOk onError :=
  ⟨project, h, .refl n _, hok⟩

theorem endsVia_get_bind {f : σ → Act σ α} :
    EndsVia backend path n (get >>= f) s onOk onError ↔
      EndsVia backend path n (f s) s onOk onError := by
  unfold EndsVia
  rw [Act.ends_bind, Act.ends_get]

theorem EndsVia.bind {f : α → Act σ β} {mid : α → Project → σ → Prop}
    {onOk : β → Project → σ → Prop} (h : EndsVia backend path m act s mid onError)
    (hf : ∀ a project t, Hosts path project (backend t) → Spends m (backend s) (backend t) →
      mid a project t → EndsVia backend path n (f a) t onOk onError) :
    EndsVia backend path (m + n) (act >>= f) s onOk onError := by
  unfold EndsVia
  rw [Act.ends_bind]
  apply Act.Ends.mono h
  · intro a t hend
    obtain ⟨project, hhosts, hspends, hmid⟩ := hend
    apply Act.Ends.mono (hf a project t hhosts hspends hmid)
    · intro b u hend
      obtain ⟨final, hfinal, hmore, hend⟩ := hend
      exact ⟨final, hfinal, hspends.trans hmore, hend⟩
    · intro _ u hend
      obtain ⟨hfailures, final, hfinal, hmore, hend⟩ := hend
      exact ⟨hspends.failures ▸ hfailures, final, hfinal, hspends.trans hmore, hend⟩
  · intro _ t hend
    obtain ⟨hfailures, project, hhosts, hspends, hend⟩ := hend
    exact ⟨hfailures, project, hhosts, hspends.mono (Nat.le_add_right m n), hend⟩

end Via

/-- An operation on the forge alone. -/
abbrev EndsOn (path : String) (n : Nat) (act : Act State α) (s : State)
    (onOk : α → Project → State → Prop) (onError : Project → Prop) : Prop :=
  EndsVia (fun t => t) path n act s onOk onError

/-- A loop over a repository keeps an invariant that speaks of the items done and their results. -/
theorem endsOn_mapM {f : β → Act State γ} {items : List β}
    (invariant : List β → List γ → Project → State → Prop)
    (hstep : ∀ done item rest results project t, items = done ++ item :: rest →
      Hosts path project t → Spends (n * done.length) s t → invariant done results project t →
      EndsOn path n (f item) t (fun result => invariant (done ++ [item]) (results ++ [result]))
        fun _ => False)
    (h : Hosts path project s) (hstart : invariant [] [] project s) :
    EndsOn path (n * items.length) (items.mapM f) s (invariant items) fun _ => False := by
  refine (Act.ends_mapM (fun done results t => ∃ project, Hosts path project t ∧
      Spends (n * done.length) s t ∧ invariant done results project t) ?_
    ⟨project, h, .refl _ s, hstart⟩).mono
    (fun _ _ hend => hend) fun _ _ => False.elim
  intro done item rest results t hitems hend
  obtain ⟨project, hhosts, hspends, hinv⟩ := hend
  apply Act.Ends.mono (hstep done item rest results project t hitems hhosts hspends hinv)
  · intro result u hend
    obtain ⟨final, hfinal, hmore, hend⟩ := hend
    refine ⟨final, hfinal, ?_, hend⟩
    rw [List.length_append, List.length_singleton, Nat.mul_succ]
    exact hspends.trans hmore
  · intro _ u hend
    obtain ⟨-, final, -, -, hend⟩ := hend
    exact hend

/-! ## Single calls -/

variable {call : Call}

/-- A call that looks at the repository and puts back what becomes of it. -/
theorem ends_call (h : Hosts path project s) {body : Project → Except Failure (α × Project)}
    (hkeys : ∀ a after, body project = .ok (a, after) →
      after.deployKeys.Sublist project.deployKeys) :
    (answer call (onProject path body)).Ends s
      (fun a t => ∃ after, body project = .ok (a, after) ∧ Hosts path after t ∧ Spends 0 s t ∧
        t.mutations = (s.record call).mutations)
      fun failure t => Hosts path project t ∧ Spends 0 s t ∧
        (s.failures ≠ ∅ ∧ failure.isNotFound = false ∨ body project = .error failure) := by
  refine ends_answer (fun hfailures message => ⟨h.record call, spends_record s call,
    .inl ⟨hfailures, rfl⟩⟩) (ends_onProject (s := s.record call) h.found ?_ ?_)
  · intro a after hbody
    exact ⟨after, hbody, (h.record call).put (hkeys a after hbody),
      (spends_record s call).trans (spends_put _ path after), rfl⟩
  · intro failure hbody
    exact ⟨h.record call, spends_record s call, .inr hbody⟩

/-- A call that cannot fail of itself. -/
theorem endsOn_call (h : Hosts path project s) {f : Project → α × Project}
    (hkeys : (f project).2.deployKeys.Sublist project.deployKeys) :
    EndsOn path 0 (answer call (onProject path fun p => .ok (f p))) s
      (fun a after t => a = (f project).1 ∧ after = (f project).2 ∧
        t.mutations = (s.record call).mutations)
      fun after => after = project := by
  refine (ends_call h ?_).mono ?_ ?_
  · intro a after hbody
    obtain rfl : (f project).2 = after := congrArg Prod.snd (Except.ok.inj hbody)
    exact hkeys
  · intro a t hend
    obtain ⟨after, hbody, hhosts, hspends, hmutations⟩ := hend
    obtain ⟨rfl, rfl⟩ := Prod.mk.inj (Except.ok.inj hbody)
    exact ⟨_, hhosts, hspends, rfl, rfl, hmutations⟩
  · intro failure t hend
    rcases hend with ⟨hhosts, hspends, ⟨hfailures, -⟩ | hbody⟩
    · exact ⟨hfailures, project, hhosts, hspends, rfl⟩
    · cases hbody

/-- A call that looks at a part of the repository. -/
theorem endsOn_look (h : Hosts path project s) (part : Project → α) :
    EndsOn path 0 (answer call (look path part)) s
      (fun a after t => a = part project ∧ after = project ∧
        t.mutations = (s.record call).mutations)
      fun after => after = project :=
  endsOn_call h (f := fun p => (part p, p)) (List.Sublist.refl _)

/-- A call that takes an identifier and cannot fail of itself. -/
theorem endsOn_call_takeId (h : Hosts path project s) (hroom : s.lastId.toNat + 1 < 2 ^ 64)
    {f : UInt64 → Project → α × Project}
    (hkeys : ((f s.takeId.lastId project).2.deployKeys.map (·.id)).Sublist
      (project.deployKeys.map (·.id) ++ [s.takeId.lastId])) :
    EndsOn path 1
      (answer call fun s => onProject path (fun p => .ok (f s.takeId.lastId p)) s.takeId) s
      (fun a after t => a = (f s.takeId.lastId project).1 ∧
        after = (f s.takeId.lastId project).2 ∧ t.mutations = (s.record call).mutations)
      fun after => after = project := by
  refine ends_answer (fun hfailures message => ⟨hfailures, project, h.record call,
    (spends_record s call).mono (Nat.zero_le 1), rfl⟩) ?_
  refine ends_onProject (s := (s.record call).takeId) h.found ?_ nofun
  intro a after hbody
  obtain ⟨rfl, rfl⟩ := Prod.mk.inj (Except.ok.inj hbody)
  refine ⟨_, (h.record call).put_takeId hroom hkeys, ?_, rfl, rfl, rfl⟩
  exact ((spends_record s call).trans (spends_takeId (by exact hroom))).trans (spends_put _ path _)

variable {site : Site}

theorem endsOn_getProject (h : Hosts path project s) :
    EndsOn path 0 ((forge site).getProject path) s
      (fun remote after t => remote = some project.repository ∧ after = project ∧
        t.mutations = s.mutations)
      fun after => after = project := by
  apply ends_getProject.mono
  · intro remote t hend
    obtain ⟨rfl, rfl⟩ := hend
    exact ⟨project, h.record _, spends_record s _, by rw [h.found]; rfl, rfl, by
      simp [Call.isMutating]⟩
  · intro failure t hend
    obtain ⟨hfailures, rfl⟩ := hend
    exact ⟨hfailures, project, h.record _, spends_record s _, rfl⟩

end ForgeSync.Forge.Memory
