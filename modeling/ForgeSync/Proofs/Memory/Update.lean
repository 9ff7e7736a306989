import ForgeSync.Proofs.Memory.Log
import ForgeSync.Proofs.Memory.Numbering
import ForgeSync.Proofs.Memory.Undisturbed

/-!
# Updates of deploy keys and description

What an update comes to while no failure awaits a call: of the old keys those stay that are wanted
as they are, the others are added in the order of their titles, under the next identifiers, and the
answer tells whether a call was made that may change something. Where there are not as many
identifiers left the program halts.

Main statements: `yields_updateRepository`, `halts_updateRepository` and `update_converges`.
-/

namespace ForgeSync.Forge.Memory

variable {s t : State} {site : Site} {path : String} {project : Project} {repo : Descriptor}

/-! ## Keys under the next identifiers -/

/-- The keys that are added for some entries after an identifier was given last. -/
def numbered (last : UInt64) : List (String × DeployKey) → List RemoteDeployKey
  | [] => []
  | (title, key) :: rest =>
    { id := last + 1, title, key := key.authorizedKey, canPush := key.writeAccess } ::
      numbered (last + 1) rest

theorem numbered_append (last : UInt64) (entries more : List (String × DeployKey)) :
    numbered last (entries ++ more) =
      numbered last entries ++ numbered (last + UInt64.ofNat entries.length) more := by
  induction entries generalizing last with
  | nil => simp [numbered]
  | cons entry rest ih =>
      obtain ⟨title, key⟩ := entry
      have hnext : last + 1 + UInt64.ofNat rest.length =
          last + UInt64.ofNat (rest.length + 1) := by
        rw [UInt64.ofNat_add, UInt64.add_assoc, UInt64.add_comm 1]
        rfl
      simp only [List.cons_append, numbered, ih, List.length_cons, hnext]

theorem view_numbered (last : UInt64) (entries : List (String × DeployKey)) :
    (numbered last entries).map (·.view) = entries.map fun (title, key) => (title, key.normal) := by
  induction entries generalizing last with
  | nil => rfl
  | cons entry rest ih =>
      obtain ⟨title, key⟩ := entry
      rw [numbered, List.map_cons, List.map_cons, ih]
      rfl

/-- The identifiers are those that follow. -/
theorem toNat_id_of_mem_numbered {last : UInt64} {entries : List (String × DeployKey)}
    (hroom : last.toNat + entries.length < 2 ^ 64) {k : RemoteDeployKey}
    (hk : k ∈ numbered last entries) :
    last.toNat < k.id.toNat ∧ k.id.toNat ≤ last.toNat + entries.length := by
  induction entries generalizing last with
  | nil => cases hk
  | cons entry rest ih =>
      obtain ⟨title, key⟩ := entry
      rw [List.length_cons] at hroom ⊢
      have hnext : (last + 1).toNat = last.toNat + 1 := by
        rw [UInt64.toNat_add]
        exact Nat.mod_eq_of_lt (by omega : last.toNat + 1 < 2 ^ 64)
      obtain rfl | hk := List.mem_cons.1 hk
      · dsimp only
        omega
      · have := ih (by omega) hk
        omega

theorem replaces_numbered (s : State) (listing : List RemoteDeployKey)
    (entries : List (String × DeployKey))
    (hroom : s.lastId.toNat + entries.length < 2 ^ 64) :
    Replaces s listing entries
      (listing.filter (·.id ∉ staleIds listing entries) ++ numbered s.lastId entries) :=
  ⟨_, rfl, view_numbered _ _, fun _ hk => (toNat_id_of_mem_numbered hroom hk).1⟩

/-! ## Single keys -/

theorem yields_addKey (h : Calm path project s) (title : String) (key : DeployKey) :
    Yields path 1 ((forge site).addKey path title key) s
      { project with deployKeys := project.deployKeys ++ numbered s.lastId [(title, key)] }
      fun outcome t => outcome = .applied ∧ t.mutations = s.mutations + 1 := by
  unfold Forge.addKey
  refine (Yields.bind (m := 1) (n := 0) h.failures (yields_call_takeId (f := fun id p =>
    ((), { p with deployKeys := p.deployKeys ++
      [{ id, title, key := key.authorizedKey, canPush := key.writeAccess }] })) h).attempt
    fun outcome t ht _ hend => ?_)
  obtain ⟨_, rfl, -, hmutations⟩ := hend
  exact yields_pure ht ⟨rfl, by simp [hmutations, Call.isMutating]⟩

theorem yields_deleteDeployKey (h : Calm path project s) {id : UInt64}
    (hlisted : ∃ k ∈ project.deployKeys, k.id = id) :
    Yields path 0 ((forge site).deleteDeployKey path id) s
      { project with deployKeys := project.deployKeys.filter (·.id ≠ id) }
      fun _ t => t.mutations = s.mutations + 1 := by
  obtain ⟨k, hk, rfl⟩ := hlisted
  have hless : (project.deployKeys.filter (·.id ≠ k.id)).length ≠ project.deployKeys.length :=
    fun hlength => by simpa using List.length_filter_eq_length_iff.1 hlength k hk
  refine (yields_call h (a := ()) (if_neg hless)).mono fun _ t _ hend => ?_
  simp [hend.2, Call.isMutating]

/-- A key that is replaced where the one that it replaces is listed. -/
theorem yields_replaceKey (h : Calm path project s) {stale : Option UInt64}
    (hstale : ∀ id, stale = some id → ∃ k ∈ project.deployKeys, k.id = id) (title : String)
    (key : DeployKey) :
    Yields path 1 ((forge site).replaceKey path stale title key) s
      { project with
        deployKeys :=
          project.deployKeys.filter (some ·.id ≠ stale) ++ numbered s.lastId [(title, key)] }
      fun outcome t => outcome = .applied ∧ s.mutations < t.mutations := by
  cases stale with
  | none =>
      have hadd : Yields path 1 ((forge site).addKey path title key) s _ _ :=
        yields_addKey h title key
      refine Yields.mono (by simpa [Forge.replaceKey] using hadd) fun outcome t _ hend => ?_
      exact ⟨hend.1, by omega⟩
  | some id =>
      refine Yields.bind (m := 0) (n := 1) h.failures
        (yields_deleteDeployKey h (hstale id rfl)).attempt fun outcome t ht hspent hend => ?_
      obtain ⟨_, rfl, hloud⟩ := hend
      have hadd : Yields path 1 ((forge site).addKey path title key) t _ _ :=
        yields_addKey ht title key
      refine Yields.mono (by simpa [hspent.lastId_eq] using hadd) fun outcome u _ hend => ?_
      exact ⟨hend.1, by omega⟩

/-- A key that is dropped; it may be gone already. -/
theorem yields_dropKey (h : Calm path project s) (title : String) (id : UInt64) :
    Yields path 0 ((forge site).dropKey path title id) s
      { project with deployKeys := project.deployKeys.filter (·.id ≠ id) }
      fun outcome t => outcome.error? = none ∧
        ((∃ k ∈ project.deployKeys, k.id = id) → outcome = .applied) ∧
        s.mutations < t.mutations := by
  unfold Forge.dropKey
  by_cases hlisted : ∃ k ∈ project.deployKeys, k.id = id
  · refine Yields.bind (m := 0) (n := 0) h.failures (yields_deleteDeployKey h hlisted).attempt
      fun outcome t ht _ hend => ?_
    obtain ⟨_, rfl, hloud⟩ := hend
    exact yields_pure ht ⟨rfl, fun _ => rfl, by omega⟩
  · have hsame : project.deployKeys.filter (·.id ≠ id) = project.deployKeys :=
      List.filter_eq_self.2 fun k hk => decide_eq_true fun hid => hlisted ⟨k, hk, hid⟩
    rw [hsame]
    refine Yields.bind (m := 0) (n := 0) h.failures
      (yields_attempt_of_refused h (if_pos (congrArg List.length hsame)))
      fun outcome t ht _ hend => ?_
    obtain ⟨rfl, hloud⟩ := hend
    refine yields_pure ht ⟨rfl, fun hmem => (hlisted hmem).elim, ?_⟩
    simp [hloud, Call.isMutating]

/-! ## Loops over keys -/

/-- Between two states a call that may change something was made exactly if `changed` holds. -/
structure Tells (changed : Prop) (s t : State) : Prop where
  le : s.mutations ≤ t.mutations
  lt_iff : s.mutations < t.mutations ↔ changed

theorem tells_of_eq {changed : Prop} (h : t.mutations = s.mutations) (hquiet : ¬ changed) :
    Tells changed s t :=
  ⟨Nat.le_of_eq h.symm, by simp [h, hquiet]⟩

theorem tells_of_lt {changed : Prop} (h : s.mutations < t.mutations) (hchanged : changed) :
    Tells changed s t :=
  ⟨Nat.le_of_lt h, iff_of_true h hchanged⟩

theorem Tells.trans {u : State} {first second : Prop} (h : Tells first s t)
    (h' : Tells second t u) : Tells (first ∨ second) s u := by
  have hle := h.le
  have hle' := h'.le
  refine ⟨by omega, ?_⟩
  rw [← h.lt_iff, ← h'.lt_iff]
  omega

theorem Tells.congr {changed changed' : Prop} (h : Tells changed s t)
    (hiff : changed ↔ changed') : Tells changed' s t :=
  ⟨h.le, h.lt_iff.trans hiff⟩

theorem Tells.of_lt_right {u : State} {changed : Prop} (h : Tells changed s t)
    (hlt : t.mutations < u.mutations) {now : Prop} (hnow : now) : Tells now s u :=
  tells_of_lt (Nat.lt_of_le_of_lt h.le hlt) hnow

theorem yields_addKeys (h : Calm path project s) (entries : List (String × DeployKey)) :
    Yields path entries.length
      (entries.mapM fun (title, key) => (forge site).addKey path title key) s
      { project with deployKeys := project.deployKeys ++ numbered s.lastId entries }
      fun outcomes _ => AllWell outcomes := by
  refine Yields.cast (yields_mapM (n := 1)
    (fun done => { project with deployKeys := project.deployKeys ++ numbered s.lastId done })
    (fun _ outcomes _ => AllWell outcomes) ?_ (by simpa [numbered] using h) rfl) (Nat.one_mul _)
  intro done entry rest outcomes t _ ht hspent hwell
  obtain ⟨title, key⟩ := entry
  rw [numbered_append, ← List.append_assoc, ← Nat.one_mul done.length, ← hspent.lastId]
  refine (yields_addKey ht title key).mono fun outcome _ _ hend => ?_
  exact allWell_append_singleton.2 ⟨hwell, by rw [hend.1]; rfl⟩

/-- Each entry replaces what was listed first under its title. The program may halt at the last
one. -/
theorem yields_replaceKeys (h : Hosts path project s) (hfailures : s.failures = ∅)
    (entries : List (String × DeployKey)) (htitles : (entries.map (·.1)).Nodup)
    (hroom : s.lastId.toNat + entries.length ≤ 2 ^ 64) :
    Yields path entries.length
      (entries.mapM fun (title, key) => (forge site).replaceKey path
        ((ListedKeys.ofListing project.deployKeys).byTitle[title]?.map (·.1)) title key) s
      { project with
        deployKeys := project.deployKeys.filter (·.id ∉ staleIds project.deployKeys entries) ++
          numbered s.lastId entries }
      fun outcomes t => outcomes = List.replicate entries.length .applied ∧
        Tells (entries ≠ []) s t := by
  refine Yields.cast (yields_mapM (n := 1)
    (fun done => { project with
      deployKeys := project.deployKeys.filter (·.id ∉ staleIds project.deployKeys done) ++
        numbered s.lastId done })
    (fun done outcomes t => outcomes = List.replicate done.length KeyOutcome.applied ∧
      Tells (done ≠ []) s t) ?_ ⟨by simpa [staleIds, numbered] using h.found, hfailures⟩
      ⟨rfl, tells_of_eq rfl (by simp)⟩) (Nat.one_mul _)
  intro done entry rest outcomes t hentries ht hspent hdone
  obtain ⟨title, key⟩ := entry
  obtain ⟨rfl, htells⟩ := hdone
  subst hentries
  simp only [List.length_append, List.length_cons] at hroom
  have hreplaces := replaces_numbered s project.deployKeys done (by omega)
  have htitle : title ∉ done.map (·.1) := by
    rw [List.map_append, List.map_cons, List.nodup_append] at htitles
    exact fun hmem => htitles.2.2 title hmem title List.mem_cons_self rfl
  have hnews : ∀ k ∈ numbered s.lastId done, s.lastId.toNat < k.id.toNat := fun k hk =>
    (toNat_id_of_mem_numbered (by omega) hk).1
  rw [numbered_append, ← List.append_assoc, ← filter_replaced h done title key hnews,
    ← Nat.one_mul done.length, ← hspent.lastId]
  refine (yields_replaceKey ht (fun id hid => exists_of_replaces h hreplaces htitle hid) title
    key).mono fun outcome u _ hend => ⟨?_, htells.of_lt_right hend.2 (by simp)⟩
  rw [hend.1, Nat.one_mul, List.length_append, List.length_singleton, List.replicate_succ']

/-- Keys that are dropped, each of which may be gone already. -/
theorem yields_dropKeys (h : Calm path project s) (surplus : List (String × UInt64)) :
    Yields path 0 (surplus.mapM fun (title, id) => (forge site).dropKey path title id) s
      { project with deployKeys := project.deployKeys.filter (·.id ∉ surplus.map (·.2)) }
      fun outcomes t => AllWell outcomes ∧ (.applied ∈ outcomes → surplus ≠ []) ∧
        ((∃ k ∈ project.deployKeys, k.id ∈ surplus.map (·.2)) → .applied ∈ outcomes) ∧
        Tells (surplus ≠ []) s t := by
  refine Yields.cast (yields_mapM (n := 0)
    (fun (done : List (String × UInt64)) =>
      { project with deployKeys := project.deployKeys.filter (·.id ∉ done.map (·.2)) })
    (fun done outcomes t => AllWell outcomes ∧ (.applied ∈ outcomes → done ≠ []) ∧
      ((∃ k ∈ project.deployKeys, k.id ∈ done.map (·.2)) → .applied ∈ outcomes) ∧
      Tells (done ≠ []) s t) ?_ (by simpa using h)
      ⟨rfl, by simp, by simp, tells_of_eq rfl (by simp)⟩) (Nat.zero_mul _)
  intro done entry rest outcomes t _ ht _ hdone
  obtain ⟨title, id⟩ := entry
  obtain ⟨hwell, -, happlied, htells⟩ := hdone
  have hleft : project.deployKeys.filter (·.id ∉ (done ++ [(title, id)]).map (·.2)) =
      (project.deployKeys.filter (·.id ∉ done.map (·.2))).filter (·.id ≠ id) := by
    rw [List.filter_filter]
    refine List.filter_congr fun k _ => Bool.eq_iff_iff.2 ?_
    simp only [Bool.and_eq_true, decide_eq_true_iff, List.map_append, List.mem_append, not_or]
    simp [and_comm]
  rw [hleft]
  refine (yields_dropKey ht title id).mono fun outcome u _ hend => ?_
  obtain ⟨hnone, hlisted, hloud⟩ := hend
  refine ⟨allWell_append_singleton.2 ⟨hwell, hnone⟩, by simp, fun hmem => ?_,
    htells.of_lt_right hloud (by simp)⟩
  obtain ⟨k, hk, hid⟩ := hmem
  rw [List.mem_append]
  by_cases hgone : k.id ∈ done.map (·.2)
  · exact .inl (happlied ⟨k, hk, hgone⟩)
  · have hsame : k.id = id := by simpa [hgone] using hid
    refine .inr (List.mem_singleton.2 (hlisted ⟨k, ?_, hsame⟩).symm)
    exact List.mem_filter.2 ⟨hk, decide_eq_true hgone⟩

/-! ## Updates -/

/-- The keys of a repository after an update: the old ones that stay, then the others. -/
def updatedKeys (repo : Descriptor) (last : UInt64) (listing : List RemoteDeployKey) :
    List RemoteDeployKey :=
  keptKeys repo listing ++ numbered last (keyDelta repo listing).add.toList

theorem nodup_titles_keyDelta (repo : Descriptor) (listing : List RemoteDeployKey) :
    ((keyDelta repo listing).add.toList.map (·.1)).Nodup := by
  rw [Std.ExtTreeMap.map_fst_toList_eq_keys]
  exact Std.ExtTreeMap.nodup_keys

theorem yields_syncDeployKeys (h : Hosts repo.fullPath project s) (hfailures : s.failures = ∅)
    (hroom : s.lastId.toNat + (keyDelta repo project.deployKeys).add.toList.length < 2 ^ 64) :
    Yields repo.fullPath (keyDelta repo project.deployKeys).add.toList.length
      ((forge site).syncDeployKeys repo) s
      { project with deployKeys := updatedKeys repo s.lastId project.deployKeys }
      fun changed t => Tells (changed = true) s t := by
  refine Yields.cast (Yields.bind (n := (keyDelta repo project.deployKeys).add.toList.length)
    hfailures (yields_look ⟨h.found, hfailures⟩ (·.deployKeys))
    fun listing t ht hlisted hend => ?_) (Nat.zero_add _)
  obtain ⟨rfl, hquiet⟩ := hend
  have hhosts : Hosts repo.fullPath project t := h.of_becomes hlisted rfl
  have hread : t.mutations = s.mutations := hquiet.trans (by simp [Call.isMutating])
  rw [← hlisted.lastId_eq] at hroom ⊢
  -- keys that differ
  refine Yields.bind (m := (keyDelta repo project.deployKeys).add.toList.length) (n := 0)
    ht.failures (yields_replaceKeys hhosts ht.failures _ (nodup_titles_keyDelta _ _) (by omega))
    fun added u hu _ hend => ?_
  obtain ⟨rfl, hadded⟩ := hend
  -- keys that have to go
  have hnews : ∀ k ∈ numbered t.lastId (keyDelta repo project.deployKeys).add.toList,
      t.lastId.toNat < k.id.toNat := fun k hk => (toNat_id_of_mem_numbered (by omega) hk).1
  rw [updatedKeys, ← filter_surplus hhosts hnews]
  refine Yields.bind (m := 0) (n := 0) hu.failures (yields_dropKeys hu
    (Forge.surplusKeys (.ofListing project.deployKeys) (keyDelta repo project.deployKeys)))
    fun dropped v hv _ hend => ?_
  obtain ⟨hwell, hsome, happlied, hdropped⟩ := hend
  dsimp only
  have hall : AllWell (List.replicate (keyDelta repo project.deployKeys).add.toList.length
      KeyOutcome.applied ++ dropped) :=
    allWell_append.2 ⟨by simp [AllWell, KeyOutcome.error?], hwell⟩
  rw [Failure.ofBatch_eq_ok_iff.2 hall]
  have htells := (tells_of_eq hread not_false).trans (hadded.trans hdropped)
  refine yields_pure hv (htells.congr ?_)
  rw [false_or, List.contains_iff_mem, List.mem_append, List.mem_replicate]
  cases hentries : (keyDelta repo project.deployKeys).add.toList with
  | cons entry rest => simp
  | nil =>
      -- nothing was replaced, so the first surplus key is still listed
      have hlisted : Forge.surplusKeys (.ofListing project.deployKeys)
          (keyDelta repo project.deployKeys) ≠ [] → .applied ∈ dropped := fun hne => by
        obtain ⟨⟨title, id⟩, hmem⟩ := List.exists_mem_of_ne_nil _ hne
        have hid : id ∈ surplusIds repo project.deployKeys := List.mem_map.2 ⟨_, hmem, rfl⟩
        obtain ⟨k, hk, rfl⟩ := exists_of_mem_surplusIds hid
        refine happlied ⟨k, ?_, hid⟩
        simpa [hentries, staleIds, numbered] using hk
      simpa using ⟨hlisted, hsome⟩

theorem yields_syncDescription (h : Calm repo.fullPath project s) :
    Yields repo.fullPath 0 ((forge site).syncDescription repo) s (described repo project)
      fun changed t => Tells (changed = true) s t := by
  unfold Forge.syncDescription
  refine Yields.bind (m := 0) (n := 0) h.failures (yields_getProject h) fun remote t ht _ hend => ?_
  obtain ⟨rfl, hread⟩ := hend
  dsimp only
  by_cases hsame : project.repository.description = repo.effectiveDisplayName
  · rw [if_pos hsame, described_of_eq hsame]
    exact yields_pure ht (tells_of_eq hread Bool.false_ne_true)
  · rw [if_neg hsame]
    refine Yields.bind (m := 0) (n := 0) ht.failures (yields_change ht (described repo))
      fun _ u hu _ hloud => ?_
    refine yields_pure hu (tells_of_lt ?_ rfl)
    simp [hloud, Call.isMutating, hread]

/-- An update keeps the wanted keys that are listed, adds the others under the next identifiers, and
sets the description. It tells whether it made a call that may change something. -/
theorem yields_updateRepository (h : Hosts repo.fullPath project s) (hfailures : s.failures = ∅)
    (hroom : s.lastId.toNat + (keyDelta repo project.deployKeys).add.toList.length < 2 ^ 64) :
    Yields repo.fullPath (keyDelta repo project.deployKeys).add.toList.length
      ((forge site).updateRepository repo) s
      (described repo
        { project with deployKeys := updatedKeys repo s.lastId project.deployKeys })
      fun changed t => Tells (changed = true) s t := by
  unfold Forge.updateRepository
  refine Yields.bind (m := (keyDelta repo project.deployKeys).add.toList.length) (n := 0) hfailures
    (yields_syncDeployKeys h hfailures hroom) fun keysChanged t ht _ hkeys => ?_
  refine Yields.bind (m := 0) (n := 0) ht.failures (yields_syncDescription ht)
    fun nameChanged u hu _ hname => ?_
  exact yields_pure hu ((hkeys.trans hname).congr Bool.or_eq_true_iff.symm)

/-- The keys after an update are the wanted ones, each once. -/
theorem perm_updatedKeys (repo : Descriptor) (last : UInt64) {listing : List RemoteDeployKey}
    (hdistinct : (listing.map (·.id)).Nodup) :
    ((updatedKeys repo last listing).map (·.view)).Perm (normalKeys repo.deployKeys) :=
  perm_normalKeys hdistinct (view_numbered _ _)

/-! ## Without room for the keys -/

theorem Onward.halted (h : Onward s t) (hs : s.halted = true) : t.halted = true := by
  rw [← Bool.not_eq_false]
  intro hruns
  rw [(h hruns).1] at hs
  cases hs

/-- From `s` the action halts the program. -/
def Halts {α : Type} (act : Act State α) (s : State) : Prop :=
  (act.runFrom s).2.halted = true

section Halting

variable {α β : Type} {n : Nat} {act : Act State α} {f : α → Act State β} {after : Project}
  {post : α → State → Prop}

/-- What comes behind does not set the program going again. -/
theorem Halts.bind (h : Halts act s) (hf : ∀ a, Act.Moves Onward (f a)) : Halts (act >>= f) s :=
  (onward_chains.behind hf s).halted h

theorem Yields.halts (h : Yields path n act s after post) (hover : 2 ^ 64 ≤ s.lastId.toNat + n) :
    Halts act s := by
  obtain ⟨a, t, hrun, hbecomes, -⟩ := h.exists_ok
  rw [Halts, hrun, hbecomes.halted, haltsBy_of_le hover]

theorem Yields.bind_halts (hfailures : s.failures = ∅) (h : Yields path n act s after post)
    (hf : ∀ a t, Calm path after t → Becomes path (some after) n s t → post a t → Halts (f a) t) :
    Halts (act >>= f) s := by
  obtain ⟨a, t, hrun, hbecomes, hpost⟩ := h.exists_ok
  rw [Halts, Act.runFrom_bind, hrun]
  exact hf a t (.of_becomes hfailures hbecomes) hbecomes hpost

end Halting

/-- The program halts at the entry for which no identifier is left. -/
theorem halts_replaceKeys (h : Hosts path project s) (hfailures : s.failures = ∅)
    (entries : List (String × DeployKey)) (htitles : (entries.map (·.1)).Nodup)
    (hover : 2 ^ 64 ≤ s.lastId.toNat + entries.length) :
    Halts (entries.mapM fun (title, key) => (forge site).replaceKey path
      ((ListedKeys.ofListing project.deployKeys).byTitle[title]?.map (·.1)) title key) s := by
  have hbound := s.lastId.toNat_lt
  obtain ⟨first, rest, rfl, hlength⟩ : ∃ first rest, entries = first ++ rest ∧
      s.lastId.toNat + first.length = 2 ^ 64 :=
    ⟨entries.take (2 ^ 64 - s.lastId.toNat), entries.drop (2 ^ 64 - s.lastId.toNat),
      (List.take_append_drop _ _).symm, by rw [List.length_take]; omega⟩
  have hfirst : ((first.map (·.1))).Nodup := by
    rw [List.map_append] at htitles
    exact htitles.of_append_left
  rw [List.mapM_append]
  refine ((yields_replaceKeys h hfailures first hfirst (Nat.le_of_eq hlength)).halts
    (Nat.le_of_eq hlength.symm)).bind fun _ => ?_
  refine onward_chains.moves_bind (onward_chains.moves_mapM fun entry _ => ?_)
    fun _ => onward_chains.moves_pure _
  exact Forge.moves_replaceKey onward_chains
    (Act.moves_map.1 (respects_onward site (.addDeployKey _ _ _) trivial))
    fun id => Act.moves_map.1 (respects_onward site (.deleteDeployKey _ id) trivial)

theorem halts_syncDeployKeys (h : Hosts repo.fullPath project s) (hfailures : s.failures = ∅)
    (hover : 2 ^ 64 ≤ s.lastId.toNat + (keyDelta repo project.deployKeys).add.toList.length) :
    Halts ((forge site).syncDeployKeys repo) s := by
  unfold Forge.syncDeployKeys
  refine Yields.bind_halts hfailures (yields_look ⟨h.found, hfailures⟩ (·.deployKeys))
    fun listing t ht hlisted hend => ?_
  obtain ⟨rfl, -⟩ := hend
  have hhosts : Hosts repo.fullPath project t := h.of_becomes hlisted rfl
  refine (halts_replaceKeys hhosts ht.failures _ (nodup_titles_keyDelta _ _)
    (by rwa [hlisted.lastId_eq])).bind fun _ => ?_
  refine onward_chains.moves_bind (onward_chains.moves_mapM fun entry _ => ?_) fun _ =>
    onward_chains.moves_bind (onward_chains.moves_ofExcept _) fun _ => onward_chains.moves_pure _
  exact Forge.moves_dropKey onward_chains
    (Act.moves_map.1 (respects_onward site (.deleteDeployKey _ entry.2) trivial))

theorem halts_updateRepository (h : Hosts repo.fullPath project s) (hfailures : s.failures = ∅)
    (hover : 2 ^ 64 ≤ s.lastId.toNat + (keyDelta repo project.deployKeys).add.toList.length) :
    Halts ((forge site).updateRepository repo) s := by
  have hget : Act.Moves Onward ((forge site).getProject repo.fullPath) :=
    Act.moves_map.1 (respects_onward site (.getProject _) trivial)
  have hedit : Act.Moves Onward
      ((forge site).editDescription repo.fullPath repo.effectiveDisplayName) :=
    Act.moves_map.1 (respects_onward site (.editDescription _ _) trivial)
  unfold Forge.updateRepository
  exact (halts_syncDeployKeys h hfailures hover).bind fun _ => onward_chains.moves_bind
    (Forge.moves_syncDescription onward_chains hget hedit) fun _ => onward_chains.moves_pure _

/-! ## Main statement -/

/-- An update of a repository that is there, while no failure awaits a call, halts the program
exactly if there are fewer identifiers left than keys to be added. Else it succeeds. Afterwards each
wanted title has one key, with the content that is wanted, no other title has any, and the
description is the display name; all else is as it was. The answer tells whether a call was made
that may change something. -/
theorem update_converges (hreachable : Reachable site s) (hruns : s.halted = false)
    (hfailures : s.failures = ∅) (hfound : s.projects[repo.fullPath]? = some project) :
    let run := ((forge site).updateRepository repo).runFrom s
    (run.2.halted = true ↔
      2 ^ 64 ≤ s.lastId.toNat + (keyDelta repo project.deployKeys).add.size) ∧
    (run.2.halted = false → ∃ changed after new,
      run.1 = .ok changed ∧ run.2.projects[repo.fullPath]? = some after ∧
      (after.deployKeys.map (·.title)).Perm repo.deployKeys.keys ∧
      (∀ k ∈ after.deployKeys, ∃ desired, repo.deployKeys[k.title]? = some desired ∧
        DeployKey.ofAuthorizedKey k.key k.canPush =
          DeployKey.ofAuthorizedKey desired.authorizedKey desired.writeAccess) ∧
      after = { project with
        deployKeys := after.deployKeys
        repository := { project.repository with description := repo.effectiveDisplayName } } ∧
      (∀ path, path ≠ repo.fullPath → run.2.projects[path]? = s.projects[path]?) ∧
      run.2.calls = s.calls ++ new ∧
      (changed = true ↔ ∃ call ∈ new, call.isMutating = true)) := by
  intro run
  have hhosts := hreachable.hosts hfound
  rw [← Std.ExtTreeMap.length_toList]
  by_cases hover : 2 ^ 64 ≤ s.lastId.toNat + (keyDelta repo project.deployKeys).add.toList.length
  · have hhalts : run.2.halted = true := halts_updateRepository hhosts hfailures hover
    exact ⟨iff_of_true hhalts hover, fun hgoes => by rw [hhalts] at hgoes; cases hgoes⟩
  have hroom := Nat.not_le.1 hover
  have hperm := perm_updatedKeys repo s.lastId hhosts.distinct
  have hyields : Yields _ _ ((forge site).updateRepository repo) s _ _ :=
    yields_updateRepository hhosts hfailures hroom
  obtain ⟨changed, t, hrun, hbecomes, htells⟩ := hyields.exists_ok
  have hlogs := moves_updateRepository (Logs.chains _)
    ((respects_logs site fun _ => True).mono fun _ (_ : updateCalls repo _) => trivial) s
  obtain ⟨new, hcalls, -⟩ := hrun ▸ hlogs
  rw [show run = (.ok changed, t) from hrun]
  have hgoes : t.halted = false := (hbecomes.halted.trans (haltsBy_of_lt hroom)).trans hruns
  refine ⟨iff_of_false (by simp [hgoes]) hover, fun _ => ⟨changed, _, new, rfl, hbecomes.here, ?_,
    fun k hk => ?_, rfl, hbecomes.others, hcalls, ?_⟩⟩
  · have htitles := hperm.map (·.1)
    rwa [List.map_map, map_title_normalKeys] at htitles
  · obtain ⟨desired, hdesired, hnormal⟩ :=
      mem_normalKeys.1 ((hperm.mem_iff).1 (List.mem_map_of_mem (f := (·.view)) hk))
    exact ⟨desired, hdesired, hnormal.symm⟩
  · rw [← htells.lt_iff]
    simp [State.mutations, show t.calls = s.calls ++ new from hcalls]

/-- Of two keys with the wanted title and a stale one, a single key is left. -/
theorem update_converges_duplicates :
    let site : Site := ⟨"memory://git.example", 20⟩
    let s := [.seedProject "acme/r", .seedDeployKey "acme/r" "ci" "ssh-ed25519 AAAA" false,
      .seedDeployKey "acme/r" "ci" "ssh-ed25519 BBBB" false,
      .seedDeployKey "acme/r" "old" "ssh-ed25519 CCCC" false].foldl (State.play site) {}
    let wanted : DeployKey := ⟨"ssh-ed25519", "DDDD", true⟩
    let repo : Descriptor :=
      { path := "acme", repoName := "r", deployKeys := .ofList [("ci", wanted)] }
    ∃ t after, ((forge site).updateRepository repo).runFrom s = (.ok true, t) ∧
      t.halted = false ∧ t.projects["acme/r"]? = some after ∧
      after.deployKeys.map (·.title) = ["ci"] := by
  intro site s wanted repo
  have hreachable : Reachable site s := reachable_foldl _ (by decide +kernel)
  have hfound : ∃ project, s.projects[repo.fullPath]? = some project := by
    rw [← Option.isSome_iff_exists]
    decide +kernel
  obtain ⟨project, hfound⟩ := hfound
  have hgoes : (((forge site).updateRepository repo).runFrom s).2.halted = false := by
    decide +kernel
  have hchanged : (((forge site).updateRepository repo).runFrom s).1 = .ok true := by decide +kernel
  obtain ⟨-, hends⟩ :=
    update_converges hreachable (by decide +kernel) (by decide +kernel) hfound
  obtain ⟨changed, after, -, -, hafter, htitles, -⟩ := hends hgoes
  rw [show repo.fullPath = "acme/r" by decide +kernel] at hafter
  rw [show repo.deployKeys.keys = ["ci"] by decide +kernel] at htitles
  rcases hrun : ((forge site).updateRepository repo).runFrom s with ⟨answered, t⟩
  rw [hrun] at hgoes hchanged hafter
  obtain rfl : answered = .ok true := hchanged
  exact ⟨t, after, rfl, hgoes, hafter, List.perm_singleton.1 htitles⟩

/-- Not so where a token brought the counter to its end: the key that is wanted cannot be added. -/
theorem update_halts_at_last_id :
    ¬ ∀ (site : Site) (deeds : List Deed) (repo : Descriptor) (project : Project),
      (deeds.foldl (State.play site) {}).halted = false →
      (deeds.foldl (State.play site) {}).failures = ∅ →
      (deeds.foldl (State.play site) {}).projects[repo.fullPath]? = some project →
      ∃ changed t after,
        ((forge site).updateRepository repo).runFrom (deeds.foldl (State.play site) {}) =
          (.ok changed, t) ∧
        t.halted = false ∧ t.projects[repo.fullPath]? = some after ∧
        (after.deployKeys.map (·.title)).Perm repo.deployKeys.keys := by
  intro h
  let last : AccessTokenRecord :=
    { uid := 18446744073709551615, name := "last", active := true, revoked := false
      expiresAt := ⟨0, 0⟩ }
  let site : Site := ⟨"memory://git.example", 20⟩
  let deeds : List Deed := [.seedProject "acme/r", .seedToken "acme/none" last]
  let wanted : DeployKey := ⟨"ssh-ed25519", "AAAA", false⟩
  let repo : Descriptor :=
    { path := "acme", repoName := "r", deployKeys := .ofList [("ci", wanted)] }
  have hfound : ∃ project,
      (deeds.foldl (State.play site) {}).projects[repo.fullPath]? = some project := by
    rw [← Option.isSome_iff_exists]
    decide +kernel
  obtain ⟨project, hfound⟩ := hfound
  obtain ⟨changed, t, after, hrun, hgoes, -⟩ :=
    h site deeds repo project (by decide +kernel) (by decide +kernel) hfound
  have hhalted : (((forge site).updateRepository repo).runFrom
      (deeds.foldl (State.play site) {})).2.halted = true := by
    decide +kernel
  rw [hrun, hgoes] at hhalted
  cases hhalted

end ForgeSync.Forge.Memory
