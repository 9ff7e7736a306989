import ForgeSync.Proofs.Memory.Hosting
import ForgeSync.Proofs.Repository.KeyListing

/-!
# Deploy keys of the forge in memory

Single keys are added and deleted, and the whole set is made that of a descriptor. A change that
was cut short leaves any keys behind, but that only happens while failures await calls; without a
failure the wanted keys are there in the end.

Main statements: `endsOn_syncDeployKeys`, `endsOn_updateRepository` and `ends_createRepository`.
-/

namespace ForgeSync.Forge.Memory

variable {site : Site} {path title : String} {key : DeployKey} {project : Project} {s : State}

/-! ## Single keys -/

/-- How the work on one key ends: with an effect on the keys, or because a failure awaited a
call. -/
def KeyEnds (effect : List RemoteDeployKey → List RemoteDeployKey → Prop) (project : Project)
    (s : State) (outcome : KeyOutcome) (after : Project) : Prop :=
  ∃ deployKeys, after = { project with deployKeys } ∧
    (outcome.error? = none ∧ effect project.deployKeys deployKeys ∨
      outcome.error? ≠ none ∧ s.failures ≠ ∅)

/-- One key was added, under an identifier that was not given before. -/
def Adds (s : State) (title : String) (key : DeployKey) (before after : List RemoteDeployKey) :
    Prop :=
  ∃ new : RemoteDeployKey, after = before ++ [new] ∧ new.view = (title, key.normal) ∧
    s.lastId.toNat < new.id.toNat

theorem endsOn_addKey (h : Hosts path project s) (hroom : s.lastId.toNat + 1 < 2 ^ 64)
    (title : String) (key : DeployKey) :
    EndsOn path 1 ((forge site).addKey path title key) s
      (fun outcome after t => KeyEnds (Adds s title key) project s outcome after ∧
        (outcome.error? = none → s.mutations < t.mutations))
      fun _ => False := by
  unfold Forge.addKey EndsOn EndsVia
  rw [Act.ends_bind, Act.ends_attempt]
  refine Act.Ends.mono (endsOn_call_takeId (f := fun id p =>
    ((), { p with deployKeys := p.deployKeys ++
      [{ id, title, key := key.authorizedKey, canPush := key.writeAccess }] })) h hroom
    (by simp)) ?_ ?_
  · intro _ t hend
    obtain ⟨after, hhosts, hspends, -, rfl, hmutations⟩ := hend
    refine ⟨_, hhosts, hspends, ⟨_, rfl, .inl ⟨rfl, ?_⟩⟩, fun _ => ?_⟩
    · refine ⟨_, rfl, rfl, ?_⟩
      dsimp only
      rw [toNat_lastId_takeId hroom]
      exact Nat.lt_succ_self _
    · simp [hmutations, Call.isMutating]
  · intro failure t hend
    obtain ⟨hfailures, after, hhosts, hspends, rfl⟩ := hend
    refine ⟨after, hhosts, hspends, ⟨after.deployKeys, rfl, .inr ⟨?_, hfailures⟩⟩, ?_⟩ <;>
      simp [KeyOutcome.error?]

/-- A key goes if it is there; if it is not there, that is the failure. -/
theorem ends_deleteDeployKey (h : Hosts path project s) (id : UInt64) :
    ((forge site).deleteDeployKey path id).Ends s
      (fun _ t => Hosts path { project with
          deployKeys := project.deployKeys.filter (·.id ≠ id) } t ∧ Spends 0 s t)
      fun failure t => Hosts path project t ∧ Spends 0 s t ∧
        (s.failures ≠ ∅ ∧ failure.isNotFound = false ∨
          failure.isNotFound = true ∧
            project.deployKeys.filter (·.id ≠ id) = project.deployKeys) := by
  refine (ends_call h ?_).mono ?_ ?_
  · intro _ after hbody
    dsimp only at hbody
    split at hbody <;> cases hbody
    exact List.filter_sublist
  · intro _ t hend
    obtain ⟨after, hbody, hhosts, hspends, -⟩ := hend
    dsimp only at hbody
    split at hbody <;> cases hbody
    exact ⟨hhosts, hspends⟩
  · intro failure t hend
    rcases hend with ⟨hhosts, hspends, hfailures | hbody⟩
    · exact ⟨hhosts, hspends, .inl hfailures⟩
    · dsimp only at hbody
      split at hbody <;> cases hbody
      rename_i hlength
      exact ⟨hhosts, hspends, .inr ⟨rfl, List.filter_eq_self.2
        (List.length_filter_eq_length_iff.1 hlength)⟩⟩

theorem endsOn_dropKey (h : Hosts path project s) (title : String) (id : UInt64) :
    EndsOn path 0 ((forge site).dropKey path title id) s
      (fun outcome after _ =>
        KeyEnds (fun before after => after = before.filter (·.id ≠ id)) project s outcome after)
      fun _ => False := by
  unfold Forge.dropKey EndsOn EndsVia
  rw [Act.ends_bind, Act.ends_attempt]
  apply (ends_deleteDeployKey h id).mono
  · intro _ t hend
    obtain ⟨hhosts, hspends⟩ := hend
    exact ⟨_, hhosts, hspends, _, rfl, .inl ⟨rfl, rfl⟩⟩
  · rintro failure t ⟨hhosts, hspends, ⟨hfailures, hfailure⟩ | ⟨hfailure, hsame⟩⟩ <;> dsimp only
    · rw [hfailure, if_neg Bool.false_ne_true]
      exact ⟨project, hhosts, hspends, project.deployKeys, rfl,
        .inr ⟨by simp [KeyOutcome.error?], hfailures⟩⟩
    · rw [hfailure, if_pos rfl]
      exact ⟨project, hhosts, hspends, project.deployKeys, rfl, .inl ⟨rfl, hsame.symm⟩⟩

/-- A key is replaced if the one that it replaces is there. -/
theorem endsOn_replaceKey (h : Hosts path project s) (hroom : s.lastId.toNat + 1 < 2 ^ 64)
    (stale : Option UInt64) (title : String) (key : DeployKey) :
    EndsOn path 1 ((forge site).replaceKey path stale title key) s
      (fun outcome after t => (∃ deployKeys, after = { project with deployKeys }) ∧
        ((∀ id, stale = some id → ∃ k ∈ project.deployKeys, k.id = id) →
          KeyEnds (fun before after => Adds s title key (before.filter (some ·.id ≠ stale)) after)
            project s outcome after) ∧
        (outcome.error? = none → s.mutations < t.mutations))
      fun _ => False := by
  cases stale with
  | none =>
      refine (endsOn_addKey h hroom title key).mono (Nat.le_refl 1) ?_ fun _ => id
      intro outcome after t hend
      obtain ⟨hend, hmutations⟩ := hend
      obtain ⟨deployKeys, hafter, -⟩ := id hend
      exact ⟨⟨deployKeys, hafter⟩, fun _ => by simpa using hend, hmutations⟩
  | some id =>
      unfold Forge.replaceKey EndsOn EndsVia
      dsimp only
      rw [Act.ends_bind, Act.ends_attempt]
      apply (ends_deleteDeployKey h id).mono
      · intro _ t hend
        obtain ⟨ht, hspends⟩ := hend
        dsimp only
        have hlast := hspends.le_lastId
        apply Act.Ends.mono (endsOn_addKey ht (by omega) title key)
        · intro outcome u hend
          obtain ⟨after, hhosts, hmore, ⟨deployKeys, rfl, hend⟩, hmutations⟩ := hend
          refine ⟨_, hhosts, hspends.trans hmore, ⟨deployKeys, rfl⟩,
            fun _ => ⟨deployKeys, rfl, ?_⟩, fun hnone =>
            Nat.lt_of_le_of_lt hspends.mutations (hmutations hnone)⟩
          obtain ⟨hnone, new, rfl, hview, hid⟩ | ⟨hsome, hfailures⟩ := hend
          · exact .inl ⟨hnone, new, by simp, hview, Nat.lt_of_le_of_lt hspends.lastId_le hid⟩
          · exact .inr ⟨hsome, hspends.failures ▸ hfailures⟩
        · intro _ u hend
          obtain ⟨-, after, -, -, hend⟩ := hend
          exact hend.elim
      · intro failure t hend
        obtain ⟨hhosts, hspends, hcause⟩ := hend
        refine ⟨project, hhosts, hspends.mono (Nat.zero_le 1), ⟨project.deployKeys, rfl⟩,
          fun hstale => ⟨project.deployKeys, rfl, .inr ⟨?_, ?_⟩⟩, ?_⟩
        · simp [KeyOutcome.error?]
        · obtain ⟨hfailures, -⟩ | ⟨-, hsame⟩ := hcause
          · exact hfailures
          · obtain ⟨k, hk, rfl⟩ := hstale id rfl
            rw [← hsame, List.mem_filter] at hk
            simp at hk
        · simp [KeyOutcome.error?]

/-! ## All keys -/

/-- Outcomes of which none is a failure. -/
def AllWell (outcomes : List KeyOutcome) : Prop :=
  outcomes.filterMap KeyOutcome.error? = []

theorem allWell_append_singleton {outcomes : List KeyOutcome} {outcome : KeyOutcome} :
    AllWell (outcomes ++ [outcome]) ↔ AllWell outcomes ∧ outcome.error? = none := by
  cases herror : outcome.error? <;> simp [AllWell, herror]

theorem allWell_append {outcomes more : List KeyOutcome} :
    AllWell (outcomes ++ more) ↔ AllWell outcomes ∧ AllWell more := by
  simp [AllWell]

/-- How the work on some keys ends: with an effect on the keys, or because a failure awaited a
call. -/
def KeysEnd (effect : List RemoteDeployKey → Prop) (project : Project) (s : State)
    (outcomes : List KeyOutcome) (after : Project) : Prop :=
  ∃ deployKeys, after = { project with deployKeys } ∧
    (AllWell outcomes ∧ effect deployKeys ∨ ¬ AllWell outcomes ∧ s.failures ≠ ∅)

/-- The keys once some entries have replaced what was listed under their titles. -/
def Replaces (s : State) (listing : List RemoteDeployKey) (entries : List (String × DeployKey))
    (after : List RemoteDeployKey) : Prop :=
  ∃ news : List RemoteDeployKey,
    after = listing.filter (·.id ∉ staleIds listing entries) ++ news ∧
      news.map (·.view) = entries.map (fun (title, key) => (title, key.normal)) ∧
      ∀ k ∈ news, s.lastId.toNat < k.id.toNat

theorem staleIds_append_singleton (listing : List RemoteDeployKey)
    (entries : List (String × DeployKey)) (entry : String × DeployKey) :
    staleIds listing (entries ++ [entry]) = staleIds listing entries ++
      ((ListedKeys.ofListing listing).byTitle[entry.1]?.map (·.1)).toList := by
  cases hentry : (ListedKeys.ofListing listing).byTitle[entry.1]?.map (·.1) <;>
    simp [staleIds, hentry]

/-- Of what is left when some entries are replaced, one entry more takes away what was listed under
its title, and nothing that is new. -/
theorem filter_replaced (h : Hosts path project s) (entries : List (String × DeployKey))
    (title : String) (key : DeployKey) {news : List RemoteDeployKey}
    (hids : ∀ k ∈ news, s.lastId.toNat < k.id.toNat) :
    (project.deployKeys.filter (·.id ∉ staleIds project.deployKeys entries) ++ news).filter
        (some ·.id ≠ (ListedKeys.ofListing project.deployKeys).byTitle[title]?.map (·.1)) =
      project.deployKeys.filter
        (·.id ∉ staleIds project.deployKeys (entries ++ [(title, key)])) ++ news := by
  rw [List.filter_append, List.filter_filter]
  congr 1
  · apply List.filter_congr
    intro k _
    rw [staleIds_append_singleton]
    cases (ListedKeys.ofListing project.deployKeys).byTitle[title]?.map (·.1) with
    | none => simp
    | some id => simp [and_comm]
  · rw [List.filter_eq_self]
    intro k hk
    have hnew := hids k hk
    rw [decide_eq_true_iff]
    intro hsame
    obtain ⟨first, hfirst, hsameId⟩ := byTitle_eq_some_iff.1 hsame.symm
    have hold := h.numbered first (List.mem_of_find?_eq_some hfirst)
    rw [hsameId] at hold
    omega

/-- One entry more has replaced what was listed under its title. -/
theorem Replaces.adds (h : Hosts path project s) {entries : List (String × DeployKey)}
    {before after : List RemoteDeployKey} {t : State} (hspends : s.lastId.toNat ≤ t.lastId.toNat)
    (hreplaces : Replaces s project.deployKeys entries before)
    (hadds : Adds t title key (before.filter fun k => some k.id ≠
      (ListedKeys.ofListing project.deployKeys).byTitle[title]?.map (·.1)) after) :
    Replaces s project.deployKeys (entries ++ [(title, key)]) after := by
  obtain ⟨news, rfl, hviews, hids⟩ := hreplaces
  obtain ⟨new, rfl, hview, hid⟩ := hadds
  refine ⟨news ++ [new], ?_, by simp [hviews, hview], fun k hk => ?_⟩
  · rw [filter_replaced h entries title key hids, List.append_assoc]
  · obtain hk | hk := List.mem_append.1 hk
    · exact hids k hk
    · rw [List.mem_singleton.1 hk]
      exact Nat.lt_of_le_of_lt hspends hid

/-- The replaced keys of other titles leave the first key of a title in place. -/
theorem exists_of_replaces (h : Hosts path project s) {entries : List (String × DeployKey)}
    {before : List RemoteDeployKey} (hreplaces : Replaces s project.deployKeys entries before)
    (htitle : title ∉ entries.map (·.1)) {id : UInt64}
    (hid : (ListedKeys.ofListing project.deployKeys).byTitle[title]?.map (·.1) = some id) :
    ∃ k ∈ before, k.id = id := by
  obtain ⟨news, rfl, -, -⟩ := hreplaces
  obtain ⟨first, hfirst, rfl⟩ := byTitle_eq_some_iff.1 hid
  have hmem := List.mem_of_find?_eq_some hfirst
  refine ⟨first, List.mem_append_left _ (List.mem_filter.2 ⟨hmem, ?_⟩), rfl⟩
  rw [decide_eq_true_iff]
  intro hstale
  obtain ⟨entry, hentry, hlookup⟩ := List.mem_filterMap.1 hstale
  obtain ⟨hsame, -⟩ := (byTitle_eq_some_id_iff h.distinct hmem).1 hlookup
  obtain rfl : first.title = title := by simpa using List.find?_some hfirst
  exact htitle (List.mem_map.2 ⟨entry, hentry, hsame⟩)

theorem endsOn_replaceKeys (h : Hosts path project s) (entries : List (String × DeployKey))
    (htitles : (entries.map (·.1)).Nodup) (hroom : s.lastId.toNat + entries.length < 2 ^ 64) :
    EndsOn path entries.length
      (entries.mapM fun (title, key) => (forge site).replaceKey path
        ((ListedKeys.ofListing project.deployKeys).byTitle[title]?.map (·.1)) title key) s
      (fun outcomes after t =>
        KeysEnd (Replaces s project.deployKeys entries) project s outcomes after ∧
          (AllWell outcomes → s.mutations + entries.length ≤ t.mutations) ∧
          (entries = [] → t.mutations = s.mutations))
      fun _ => False := by
  refine (endsOn_mapM (n := 1) (fun done outcomes after t =>
      KeysEnd (Replaces s project.deployKeys done) project s outcomes after ∧
        (AllWell outcomes → s.mutations + done.length ≤ t.mutations) ∧
        (done = [] → t.mutations = s.mutations)) ?_ h ?_).mono
    (Nat.le_of_eq (Nat.one_mul _)) (fun _ _ _ hend => hend) fun _ => id
  · intro done entry rest outcomes _ t heq ht hspends hkept
    obtain ⟨title, key⟩ := entry
    obtain ⟨⟨deployKeys, rfl, hend⟩, hmutations, -⟩ := hkept
    subst heq
    rw [Nat.one_mul] at hspends
    have hlast := hspends.le_lastId
    simp only [List.length_append, List.length_cons] at hroom
    have htitle : title ∉ done.map (·.1) := by
      rw [List.map_append, List.map_cons, List.nodup_append] at htitles
      exact fun hmem => htitles.2.2 title hmem title List.mem_cons_self rfl
    refine (endsOn_replaceKey ht (by omega) _ title key).mono (Nat.le_refl 1) ?_ fun _ => id
    intro outcome after u hend
    obtain ⟨⟨deployKeys, hafter⟩, hitem, hmore⟩ := hend
    obtain ⟨hwell, hreplaces⟩ | ⟨hfailed, hfailures⟩ := hend
    · obtain ⟨deployKeys, rfl, hends⟩ :=
        hitem fun id hid => exists_of_replaces h hreplaces htitle hid
      refine ⟨⟨deployKeys, rfl, ?_⟩, fun hall => ?_, by simp⟩
      · obtain ⟨hnone, hadds⟩ | ⟨hsome, hfailures⟩ := hends
        · exact .inl ⟨allWell_append_singleton.2 ⟨hwell, hnone⟩,
            hreplaces.adds h hspends.lastId_le hadds⟩
        · exact .inr ⟨fun hall => hsome (allWell_append_singleton.1 hall).2,
            hspends.failures ▸ hfailures⟩
      · have := hmutations hwell
        have := hmore (allWell_append_singleton.1 hall).2
        rw [List.length_append, List.length_singleton]
        omega
    · have hfailed : ¬ AllWell (outcomes ++ [outcome]) :=
        fun hall => hfailed (allWell_append_singleton.1 hall).1
      exact ⟨⟨deployKeys, hafter, .inr ⟨hfailed, hfailures⟩⟩,
        fun hall => (hfailed hall).elim, by simp⟩
  · refine ⟨⟨project.deployKeys, rfl, .inl ⟨rfl, [], ?_, rfl, nofun⟩⟩, fun _ => Nat.le_refl _,
      fun _ => rfl⟩
    simp [staleIds]

theorem endsOn_dropKeys (h : Hosts path project s) (surplus : List (String × UInt64)) :
    EndsOn path 0 (surplus.mapM fun (title, id) => (forge site).dropKey path title id) s
      (fun outcomes after t =>
        KeysEnd (· = project.deployKeys.filter (·.id ∉ surplus.map (·.2))) project s outcomes
          after ∧ (surplus = [] → t.mutations = s.mutations))
      fun _ => False := by
  refine (endsOn_mapM (n := 0) (fun done outcomes after t =>
      KeysEnd (· = project.deployKeys.filter (·.id ∉ done.map (·.2))) project s outcomes after ∧
        (done = [] → t.mutations = s.mutations)) ?_ h ?_).mono
    (Nat.le_of_eq (Nat.zero_mul _)) (fun _ _ _ hend => hend) fun _ => id
  · intro done entry rest outcomes _ t hsurplus ht hspends hkept
    obtain ⟨title, id⟩ := entry
    obtain ⟨⟨deployKeys, rfl, hend⟩, -⟩ := hkept
    refine (endsOn_dropKey ht title id).mono (Nat.le_refl 0) ?_ fun _ hend => hend
    intro outcome _ u hend
    obtain ⟨deployKeys, rfl, hitem⟩ := hend
    refine ⟨⟨deployKeys, rfl, ?_⟩, by simp⟩
    obtain ⟨hwell, rfl⟩ | ⟨hfailed, hfailures⟩ := hend
    · obtain ⟨hnone, rfl⟩ | ⟨hsome, hfailures⟩ := hitem
      · refine .inl ⟨allWell_append_singleton.2 ⟨hwell, hnone⟩, ?_⟩
        dsimp only
        rw [List.filter_filter]
        refine List.filter_congr fun k _ => Bool.eq_iff_iff.2 ?_
        simp only [Bool.and_eq_true, decide_eq_true_iff, List.map_append, List.mem_append, not_or]
        simp [and_comm]
      · exact .inr ⟨fun hall => hsome (allWell_append_singleton.1 hall).2,
          hspends.failures ▸ hfailures⟩
    · exact .inr ⟨fun hall => hfailed (allWell_append_singleton.1 hall).1, hfailures⟩
  · exact ⟨⟨project.deployKeys, rfl, .inl ⟨rfl, by simp⟩⟩, fun _ => rfl⟩

variable {repo : Descriptor}

/-- What stays of the old keys when the surplus ones are gone as well; nothing that is new goes. -/
theorem filter_surplus (h : Hosts path project s) {news : List RemoteDeployKey}
    (hids : ∀ k ∈ news, s.lastId.toNat < k.id.toNat) :
    (project.deployKeys.filter (·.id ∉ staleIds project.deployKeys
        (keyDelta repo project.deployKeys).add.toList) ++ news).filter
        (·.id ∉ surplusIds repo project.deployKeys) =
      keptKeys repo project.deployKeys ++ news := by
  rw [List.filter_append, List.filter_filter, keptKeys]
  congr 1
  · exact List.filter_congr fun k _ => by simp [and_comm]
  · rw [List.filter_eq_self]
    intro k hk
    have hnew := hids k hk
    rw [decide_eq_true_iff]
    intro hsurplus
    obtain ⟨old, hold, hsame⟩ := exists_of_mem_surplusIds hsurplus
    have := h.numbered old hold
    rw [hsame] at this
    omega

/-- Once the wanted keys have replaced the old ones and the surplus ones are gone, the wanted ones
are left. -/
theorem filter_of_replaces (h : Hosts path project s) {after : List RemoteDeployKey}
    (hreplaces : Replaces s project.deployKeys
      (keyDelta repo project.deployKeys).add.toList after) :
    ((after.filter (·.id ∉ surplusIds repo project.deployKeys)).map (·.view)).Perm
      (normalKeys repo.deployKeys) := by
  obtain ⟨news, rfl, hviews, hids⟩ := hreplaces
  rw [filter_surplus h hids]
  exact perm_normalKeys h.distinct hviews

/-- The keys of the repository are the wanted ones, in some order. -/
def Carries (repo : Descriptor) (project : Project) : Prop :=
  (project.deployKeys.map (·.view)).Perm (normalKeys repo.deployKeys)

theorem size_add_keyDelta_le (repo : Descriptor) (listing : List RemoteDeployKey) :
    (keyDelta repo listing).add.toList.length ≤ repo.deployKeys.size := by
  rw [Std.ExtTreeMap.length_toList]
  exact Std.ExtTreeMap.size_filter_le_size

/-- The keys end as the wanted ones. If they are that already, a call that may change something is
made exactly if one of them does not come back as it is. -/
theorem endsOn_syncDeployKeys (h : Hosts repo.fullPath project s)
    (hroom : s.lastId.toNat + repo.deployKeys.size < 2 ^ 64) :
    EndsOn repo.fullPath repo.deployKeys.size ((forge site).syncDeployKeys repo) s
      (fun _ after t => (∃ deployKeys, after = { project with deployKeys }) ∧ Carries repo after ∧
        (Carries repo project → (t.mutations = s.mutations ↔ repo.KeysSettled)))
      fun after => ∃ deployKeys, after = { project with deployKeys } := by
  have hsize := size_add_keyDelta_le repo project.deployKeys
  unfold Forge.syncDeployKeys
  refine (((endsOn_look h _).imp_error fun after hsame => ⟨project.deployKeys, hsame⟩).bind
    (n := (keyDelta repo project.deployKeys).add.toList.length)
    fun listed after t ht hspends hlisted => ?_).mono (by omega) (fun _ _ _ hend => hend)
      fun _ hend => hend
  obtain ⟨rfl, rfl, hread⟩ := hlisted
  have hread : t.mutations = s.mutations := hread.trans (by simp [Call.isMutating])
  have hlast := hspends.le_lastId
  -- keys that differ
  have htitles : ((keyDelta repo after.deployKeys).add.toList.map (·.1)).Nodup := by
    rw [Std.ExtTreeMap.map_fst_toList_eq_keys]
    exact Std.ExtTreeMap.nodup_keys
  refine ((endsOn_replaceKeys ht (keyDelta repo after.deployKeys).add.toList htitles
    (by omega)).imp_error fun _ => False.elim).bind (n := 0) ?_
  intro added _ u hu hmore hend
  obtain ⟨⟨replaced, rfl, hreplaced⟩, hloud, hquiet⟩ := hend
  -- keys that have to go
  refine ((endsOn_dropKeys hu (Forge.surplusKeys (.ofListing after.deployKeys)
    (keyDelta repo after.deployKeys))).imp_error fun _ => False.elim).bind (n := 0) ?_
  intro dropped _ v hv hlater hend
  obtain ⟨⟨deployKeys, rfl, hkept⟩, hstill⟩ := hend
  unfold EndsVia
  dsimp only
  rw [Act.ends_bind]
  by_cases hwell : AllWell (added ++ dropped)
  · rw [Failure.ofBatch_eq_ok_iff.2 hwell, Act.ends_ofExcept_ok]
    obtain ⟨hwellAdded, hwellDropped⟩ := allWell_append.1 hwell
    refine ⟨_, hv, .refl 0 v, ⟨deployKeys, rfl⟩, ?_, fun hcarries => ?_⟩
    · obtain ⟨-, hreplaces⟩ | ⟨hfailed, -⟩ := hreplaced
      · obtain ⟨-, rfl⟩ | ⟨hfailed, -⟩ := hkept
        · exact filter_of_replaces ht hreplaces
        · exact (hfailed hwellDropped).elim
      · exact (hfailed hwellAdded).elim
    · obtain ⟨hduplicates, hremove, hadd⟩ := keyDelta_of_perm ht.distinct hcarries
      rw [← hadd]
      constructor
      · intro hsame
        have := hloud hwellAdded
        have := hlater.mutations
        rw [Std.ExtTreeMap.eq_empty_iff_size_eq_zero, ← Std.ExtTreeMap.length_toList]
        omega
      · intro hempty
        rw [hstill (by simp [Forge.surplusKeys, hremove, hduplicates]),
          hquiet (by simp [hempty]), hread]
  · have hfailures : v.failures ≠ ∅ := by
      rw [hlater.failures]
      rcases Classical.not_and_iff_not_or_not.1 (mt allWell_append.2 hwell) with hfailed | hfailed
      · rw [hmore.failures]
        exact (hreplaced.resolve_left fun hend => hfailed hend.1).2
      · exact (hkept.resolve_left fun hend => hfailed hend.1).2
    rw [Failure.ofBatch, if_neg (by simpa [AllWell] using hwell), Act.ends_ofExcept_error]
    exact ⟨hfailures, _, hv, .refl 0 v, deployKeys, rfl⟩

/-! ## Updates -/

/-- A repository under the description that a descriptor wants. -/
def described (repo : Descriptor) (project : Project) : Project :=
  { project with
    repository := { project.repository with description := repo.effectiveDisplayName } }

theorem described_of_eq (h : project.repository.description = repo.effectiveDisplayName) :
    described repo project = project := by
  rw [described, ← h]

theorem endsOn_syncDescription (h : Hosts repo.fullPath project s) :
    EndsOn repo.fullPath 0 ((forge site).syncDescription repo) s
      (fun _ after t => after = described repo project ∧
        (project.repository.description = repo.effectiveDisplayName → t.mutations = s.mutations))
      fun after => after = project := by
  unfold Forge.syncDescription
  apply (endsOn_getProject h).bind (m := 0) (n := 0)
  intro remote project t ht _ hend
  obtain ⟨rfl, rfl, hread⟩ := hend
  dsimp only
  by_cases hsame : project.repository.description = repo.effectiveDisplayName
  · rw [if_pos hsame]
    exact endsVia_pure ht ⟨(described_of_eq hsame).symm, fun _ => hread⟩
  · rw [if_neg hsame]
    refine (endsOn_call (f := fun p => ((), { p with
      repository := { p.repository with description := repo.effectiveDisplayName } })) ht
      (List.Sublist.refl _)).bind (m := 0) (n := 0) fun _ after u hu _ hafter => ?_
    exact endsVia_pure hu ⟨hafter.2.1, fun heq => (hsame heq).elim⟩

/-- Keys and description end as they are wanted, and nothing else changes. -/
theorem endsOn_updateRepository (h : Hosts repo.fullPath project s)
    (hroom : s.lastId.toNat + repo.deployKeys.size < 2 ^ 64) :
    EndsOn repo.fullPath repo.deployKeys.size ((forge site).updateRepository repo) s
      (fun _ after t =>
        (∃ deployKeys, after = described repo { project with deployKeys }) ∧ Carries repo after ∧
        (Carries repo project → project.repository.description = repo.effectiveDisplayName →
          (t.mutations = s.mutations ↔ repo.KeysSettled)))
      fun after => ∃ deployKeys, after = { project with deployKeys } := by
  unfold Forge.updateRepository
  apply (endsOn_syncDeployKeys h hroom).bind (n := 0)
  intro _ after t ht hspends hkeys
  obtain ⟨⟨deployKeys, rfl⟩, hcarries, hquiet⟩ := hkeys
  refine ((endsOn_syncDescription ht).imp_error fun after hsame => ⟨deployKeys, hsame⟩).bind
    (m := 0) (n := 0) fun _ after u hu hmore hdescription => endsVia_pure hu ?_
  obtain ⟨rfl, hstill⟩ := hdescription
  refine ⟨⟨deployKeys, rfl⟩, hcarries, fun hold hsame => ?_⟩
  rw [← hquiet hold, hstill hsame]

/-! ## Creation -/

/-- A repository as it is created, with any deploy keys. -/
def IsNew (site : Site) (repo : Descriptor) (project : Project) : Prop :=
  ∃ id deployKeys, project =
    { newProject site id repo.fullPath repo.effectiveDisplayName with deployKeys }

theorem endsOn_addKeys (h : Hosts path project s) (entries : List (String × DeployKey))
    (hroom : s.lastId.toNat + entries.length < 2 ^ 64) :
    EndsOn path entries.length
      (entries.mapM fun (title, key) => (forge site).addKey path title key) s
      (fun outcomes after _ => KeysEnd (fun after => ∃ news : List RemoteDeployKey,
        after = project.deployKeys ++ news ∧
          news.map (·.view) = entries.map fun (title, key) => (title, key.normal))
        project s outcomes after)
      fun _ => False := by
  refine (endsOn_mapM (n := 1) (fun done outcomes after _ =>
      KeysEnd (fun after => ∃ news : List RemoteDeployKey, after = project.deployKeys ++ news ∧
        news.map (·.view) = done.map fun (title, key) => (title, key.normal))
        project s outcomes after) ?_ h ?_).mono
    (Nat.le_of_eq (Nat.one_mul _)) (fun _ _ _ hend => hend) fun _ hend => hend
  · intro done entry rest outcomes _ t heq ht hspends hkept
    obtain ⟨title, key⟩ := entry
    subst heq
    obtain ⟨deployKeys, rfl, hend⟩ := hkept
    rw [Nat.one_mul] at hspends
    have hlast := hspends.le_lastId
    simp only [List.length_append, List.length_cons] at hroom
    refine (endsOn_addKey ht (by omega) title key).mono (Nat.le_refl 1) ?_ fun _ hend => hend
    intro outcome _ u hend
    obtain ⟨⟨deployKeys, rfl, hitem⟩, -⟩ := hend
    refine ⟨deployKeys, rfl, ?_⟩
    obtain ⟨hwell, news, rfl, hviews⟩ | ⟨hfailed, hfailures⟩ := hend
    · obtain ⟨hnone, new, rfl, hview, -⟩ | ⟨hsome, hfailures⟩ := hitem
      · exact .inl ⟨allWell_append_singleton.2 ⟨hwell, hnone⟩, news ++ [new],
          by simp, by simp [hviews, hview]⟩
      · exact .inr ⟨fun hall => hsome (allWell_append_singleton.1 hall).2,
          hspends.failures ▸ hfailures⟩
    · exact .inr ⟨fun hall => hfailed (allWell_append_singleton.1 hall).1, hfailures⟩
  · exact ⟨project.deployKeys, rfl, .inl ⟨rfl, [], by simp, rfl⟩⟩

theorem ends_createProject {space name description : String}
    (habsent : s.projects[Descriptor.joinPath space name]? = none)
    (hroom : s.lastId.toNat + 1 < 2 ^ 64) :
    ((forge site).createProject space name description).Ends s
      (fun _ t => ∃ id, Hosts (Descriptor.joinPath space name)
        (newProject site id (Descriptor.joinPath space name) description) t ∧ Spends 1 s t)
      fun _ t => s.failures ≠ ∅ ∧ t.projects[Descriptor.joinPath space name]? = none ∧
        Spends 1 s t := by
  have hspends : ∀ call, Spends 1 s (s.record call) := fun call =>
    (spends_record s call).mono (Nat.zero_le 1)
  apply ends_answer (fun hfailures _ => ⟨hfailures, habsent, hspends _⟩)
  unfold Act.Ends createProject
  rw [Act.runFrom_ofFunction]
  dsimp only
  have hnot : Descriptor.joinPath space name ∉ s.projects := fun hmem => by
    have hsome := Std.ExtTreeMap.mem_iff_isSome_getElem?.1 hmem
    rw [habsent] at hsome
    cases hsome
  rw [if_neg (by exact hnot)]
  refine ⟨_, ⟨getElem?_put_self _ _ _, List.nodup_nil, nofun⟩, ?_⟩
  exact ((spends_record s _).trans (spends_takeId (by exact hroom))).trans (spends_put _ _ _)

/-- A repository that was not there is created with the wanted keys; if a failure awaits a call, it
may miss some of them or not be there at all. -/
theorem ends_createRepository (habsent : s.projects[repo.fullPath]? = none)
    (hroom : s.lastId.toNat + (repo.deployKeys.size + 1) < 2 ^ 64) :
    ((forge site).createRepository repo).Ends s
      (fun _ t => ∃ project, Hosts repo.fullPath project t ∧
        Spends (repo.deployKeys.size + 1) s t ∧ IsNew site repo project ∧ Carries repo project)
      fun _ t => s.failures ≠ ∅ ∧ Spends (repo.deployKeys.size + 1) s t ∧
        (t.projects[repo.fullPath]? = none ∨
          ∃ project, Hosts repo.fullPath project t ∧ IsNew site repo project) := by
  unfold Forge.createRepository
  rw [Act.ends_bind]
  apply (ends_createProject habsent (by omega)).mono
  · intro _ t hend
    obtain ⟨id, ht, hspends⟩ := hend
    have hlast := hspends.le_lastId
    rw [Act.ends_bind]
    refine Act.Ends.mono (endsOn_addKeys ht repo.deployKeys.toList
      (by rw [Std.ExtTreeMap.length_toList]; omega)) ?_ ?_
    · intro outcomes u hend
      obtain ⟨_, hu, hmore, deployKeys, rfl, hend⟩ := hend
      rw [Std.ExtTreeMap.length_toList] at hmore
      have hall : Spends (repo.deployKeys.size + 1) s u :=
        (hspends.trans hmore).mono (by omega)
      obtain ⟨hwell, news, rfl, hviews⟩ | ⟨hfailed, hfailures⟩ := hend
      · rw [Failure.ofBatch_eq_ok_iff.2 hwell, Act.ends_ofExcept_ok]
        refine ⟨_, hu, hall, ⟨id, _, rfl⟩, ?_⟩
        rw [Carries, normalKeys, ← hviews]
      · rw [Failure.ofBatch, if_neg (by simpa [AllWell] using hfailed), Act.ends_ofExcept_error]
        exact ⟨hspends.failures ▸ hfailures, hall, .inr ⟨_, hu, id, deployKeys, rfl⟩⟩
    · intro _ u hend
      obtain ⟨-, _, -, -, hend⟩ := hend
      exact hend.elim
  · intro _ t hend
    obtain ⟨hfailures, hnone, hspends⟩ := hend
    exact ⟨hfailures, hspends.mono (by omega), .inl hnone⟩

end ForgeSync.Forge.Memory
