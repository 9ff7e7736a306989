import ForgeSync.Proofs.Forge.KeyDeletions

/-!
# Replacing a deploy key that is gone

A deletion may find its key gone, for instance because it was sent again after its first answer was
lost. A key that is only dropped is then as good as deleted. A key that is to be replaced is not: the
wanted key is not added, and the update fails.

Main statements: `ends_replaceKeys` and `adds_all_unless_gone`.
-/

namespace ForgeSync.Forge

/-- The calls that add a deploy key. -/
def Call.isKeyAddition : Call → Bool
  | .addDeployKey _ _ _ => true
  | _ => false

namespace Scripted

variable {baseUrl path title : String} {key : DeployKey} {stale : UInt64} {s t : State}
  {repo : Descriptor} {listing : List RemoteDeployKey}

/-! ## Answers to replacements -/

/-- The entries that are not added, each with the failure of the deletion before it. A key is deleted
before every entry whose title is listed, and the answers are given in this order. -/
def refusals (listing : List RemoteDeployKey) (entries : List (String × DeployKey))
    (answers : List (Except Failure Unit)) : List ((String × DeployKey) × Failure) :=
  ((entries.filter fun entry => entry.1 ∈ listing.map (·.title)).zip answers).filterMap
    fun (entry, answer) =>
      match answer with
      | .ok () => none
      | .error failure => some (entry, failure)

/-- The entries that are added. -/
def granted (listing : List RemoteDeployKey) (entries : List (String × DeployKey))
    (answers : List (Except Failure Unit)) : List (String × DeployKey) :=
  entries.filter fun entry => entry ∉ (refusals listing entries answers).map (·.1)

/-- The calls that add entries. -/
def additions (path : String) (entries : List (String × DeployKey)) : List Call :=
  entries.map fun entry => .addDeployKey path entry.1 entry.2

/-- What is reported of an entry that is not added. -/
def refusalText : (String × DeployKey) × Failure → String
  | ((title, _), failure) => "replace " ++ title ++ ": " ++ failure.message

variable {entry : String × DeployKey} {entries : List (String × DeployKey)}
  {answers : List (Except Failure Unit)} {failure : Failure}

theorem refusals_of_unlisted (h : entry.1 ∉ listing.map (·.title)) :
    refusals listing (entry :: entries) answers = refusals listing entries answers := by
  rw [refusals, List.filter_cons_of_neg (by simpa using h)]
  rfl

theorem refusals_of_ok (h : entry.1 ∈ listing.map (·.title))
    (hanswer : answers.headD (.ok ()) = .ok ()) :
    refusals listing (entry :: entries) answers = refusals listing entries answers.tail := by
  rw [refusals, List.filter_cons_of_pos (by simpa using h)]
  rcases answers with _ | ⟨_ | _, answers⟩
  · simp [refusals]
  · cases hanswer
  · rfl

theorem refusals_of_error (h : entry.1 ∈ listing.map (·.title))
    (hanswer : answers.headD (.ok ()) = .error failure) :
    refusals listing (entry :: entries) answers =
      (entry, failure) :: refusals listing entries answers.tail := by
  rw [refusals, List.filter_cons_of_pos (by simpa using h)]
  rcases answers with _ | ⟨_ | _, answers⟩
  · cases hanswer
  · cases hanswer
    rfl
  · cases hanswer

theorem mem_of_mem_refusals (h : entry ∈ (refusals listing entries answers).map (·.1)) :
    entry ∈ entries := by
  obtain ⟨refusal, hmem, rfl⟩ := List.mem_map.1 h
  obtain ⟨⟨other, answer⟩, hpair, hrefused⟩ := List.mem_filterMap.1 hmem
  cases answer with
  | ok _ => cases hrefused
  | error failure =>
      cases hrefused
      exact List.mem_of_mem_filter (List.of_mem_zip hpair).1

/-- An entry that is not refused comes before the others that are added. -/
theorem granted_cons {later : List (Except Failure Unit)} (hnew : entry ∉ entries)
    (h : refusals listing (entry :: entries) answers = refusals listing entries later) :
    granted listing (entry :: entries) answers = entry :: granted listing entries later := by
  rw [granted, h, List.filter_cons_of_pos]
  · rfl
  · exact decide_eq_true fun hmem => hnew (mem_of_mem_refusals hmem)

theorem granted_cons_of_error (hnew : entry ∉ entries) (h : entry.1 ∈ listing.map (·.title))
    (hanswer : answers.headD (.ok ()) = .error failure) :
    granted listing (entry :: entries) answers = granted listing entries answers.tail := by
  rw [granted, refusals_of_error h hanswer, List.filter_cons_of_neg (by simp)]
  refine List.filter_congr fun other hother => ?_
  have hne : other ≠ entry := fun hsame => hnew (hsame ▸ hother)
  simp [hne]

/-! ## Scripts that an update uses up -/

/-- What is left of a script later on, as far as an update of keys and description asks. -/
structure Follows (s t : State) : Prop where
  getProject : t.script.getProject = s.script.getProject
  editDescription : t.script.editDescription = s.script.editDescription
  deletions : ∀ answer ∈ t.script.deleteDeployKey, answer ∈ s.script.deleteDeployKey
  additions : ∀ answer ∈ t.script.addDeployKey, answer ∈ s.script.addDeployKey

theorem follows_chains : Act.Chains Follows where
  refl _ := ⟨rfl, rfl, fun _ => id, fun _ => id⟩
  trans h h' := ⟨h'.getProject.trans h.getProject, h'.editDescription.trans h.editDescription,
    fun answer hmem => h.deletions answer (h'.deletions answer hmem),
    fun answer hmem => h.additions answer (h'.additions answer hmem)⟩

theorem runFrom_addDeployKey :
    ((forge baseUrl).addDeployKey path title key).runFrom s =
      (s.script.addDeployKey.headD (.ok ()),
        { script := { s.script with addDeployKey := s.script.addDeployKey.tail }
          calls := s.calls ++ [.addDeployKey path title key] }) :=
  runFrom_play rfl

/-- A deletion uses up its answer and is recorded. -/
def State.afterDeletion (s : State) (path : String) (stale : UInt64) : State where
  script := { s.script with deleteDeployKey := s.script.deleteDeployKey.tail }
  calls := s.calls ++ [.deleteDeployKey path stale]

theorem runFrom_deleteDeployKey :
    ((forge baseUrl).deleteDeployKey path stale).runFrom s =
      (s.script.deleteDeployKey.headD (.ok ()), s.afterDeletion path stale) :=
  runFrom_play rfl

theorem grows_afterDeletion :
    Grows State.calls Call.isKeyAddition [] s (s.afterDeletion path stale) :=
  ⟨_, rfl, rfl⟩

theorem follows_afterDeletion : Follows s (s.afterDeletion path stale) :=
  ⟨rfl, rfl, fun _ => List.mem_of_mem_tail, fun _ => id⟩

/-- Every addition that is still to come succeeds. -/
def GrantsKeys (s : State) : Prop :=
  ∀ answer ∈ s.script.addDeployKey, answer = .ok ()

theorem GrantsKeys.follows (h : GrantsKeys s) (hfollows : Follows s t) : GrantsKeys t :=
  fun answer hmem => h answer (hfollows.additions answer hmem)

/-- The outcomes tell of these errors, and these entries have been added. -/
structure Replaces (path : String) (added : List (String × DeployKey)) (errors : List String)
    (outcomes : List KeyOutcome) (s t : State) : Prop where
  errors_eq : outcomes.filterMap KeyOutcome.error? = errors
  grows : Grows State.calls Call.isKeyAddition (additions path added) s t
  follows : Follows s t

theorem Replaces.append {added more : List (String × DeployKey)} {errors errors' : List String}
    {outcomes outcomes' : List KeyOutcome} {u : State}
    (h : Replaces path added errors outcomes s t)
    (h' : Replaces path more errors' outcomes' t u) :
    Replaces path (added ++ more) (errors ++ errors') (outcomes ++ outcomes') s u where
  errors_eq := by rw [List.filterMap_append, h.errors_eq, h'.errors_eq]
  grows := by
    rw [additions, List.map_append]
    exact h.grows.trans h'.grows
  follows := follows_chains.trans h.follows h'.follows

/-- A key is added where additions succeed, and no answer to a deletion is used up. -/
theorem ends_addKey (h : GrantsKeys s) :
    ((forge baseUrl).addKey path title key).Ends s
      (fun outcome t => Replaces path [(title, key)] [] [outcome] s t ∧
        t.script.deleteDeployKey = s.script.deleteDeployKey)
      fun _ _ => False := by
  have hanswer : s.script.addDeployKey.headD (.ok ()) = .ok () := by
    cases hqueue : s.script.addDeployKey with
    | nil => rfl
    | cons answer rest => exact h answer (by simp [hqueue])
  unfold Forge.addKey
  rw [Act.ends_bind, Act.ends_attempt]
  unfold Act.Ends
  rw [runFrom_addDeployKey, hanswer]
  exact ⟨⟨rfl, ⟨_, rfl, rfl⟩, ⟨rfl, rfl, fun _ => id, fun _ => List.mem_of_mem_tail⟩⟩, rfl⟩

/-- A key is replaced where its deletion succeeds. -/
theorem ends_replaceKey_of_ok (h : GrantsKeys s)
    (hdeleted : s.script.deleteDeployKey.headD (.ok ()) = .ok ()) :
    ((forge baseUrl).replaceKey path (some stale) title key).Ends s
      (fun outcome t => Replaces path [(title, key)] [] [outcome] s t ∧
        t.script.deleteDeployKey = s.script.deleteDeployKey.tail)
      fun _ _ => False := by
  unfold Forge.replaceKey
  rw [Act.ends_bind, Act.ends_attempt]
  unfold Act.Ends
  rw [runFrom_deleteDeployKey, hdeleted]
  refine (ends_addKey (s := s.afterDeletion path stale) h).mono (fun outcome t hend => ?_)
    fun _ _ => False.elim
  obtain ⟨hadded, hrest⟩ := hend
  exact ⟨⟨hadded.errors_eq, grows_afterDeletion.trans hadded.grows,
    follows_chains.trans follows_afterDeletion hadded.follows⟩, hrest⟩

/-- A key is not added where its deletion fails, even if it fails for want of the key. -/
theorem ends_replaceKey_of_error
    (hdeleted : s.script.deleteDeployKey.headD (.ok ()) = .error failure) :
    ((forge baseUrl).replaceKey path (some stale) title key).Ends s
      (fun outcome t => Replaces path [] [refusalText ((title, key), failure)] [outcome] s t ∧
        t.script.deleteDeployKey = s.script.deleteDeployKey.tail)
      fun _ _ => False := by
  unfold Forge.replaceKey
  rw [Act.ends_bind, Act.ends_attempt]
  unfold Act.Ends
  rw [runFrom_deleteDeployKey, hdeleted]
  exact ⟨⟨rfl, grows_afterDeletion, follows_afterDeletion⟩, rfl⟩

/-! ## All keys -/

/-- The next answer to a deletion decides about an entry if its title is listed; the other answers
are left for the entries after it. -/
theorem ends_replaceKey (listing : List RemoteDeployKey) (hnew : entry ∉ entries)
    (h : GrantsKeys s) :
    ((forge baseUrl).replaceKey path ((ListedKeys.ofListing listing).byTitle[entry.1]?.map (·.1))
        entry.1 entry.2).Ends s
      (fun outcome t => ∃ added errors, Replaces path added errors [outcome] s t ∧
        granted listing (entry :: entries) s.script.deleteDeployKey =
          added ++ granted listing entries t.script.deleteDeployKey ∧
        (refusals listing (entry :: entries) s.script.deleteDeployKey).map refusalText =
          errors ++ (refusals listing entries t.script.deleteDeployKey).map refusalText)
      fun _ _ => False := by
  have hlisted : entry.1 ∈ listing.map (·.title) ↔
      ((ListedKeys.ofListing listing).byTitle[entry.1]?.map (·.1)).isSome := by
    rw [Option.isSome_map, ← Std.ExtTreeMap.mem_iff_isSome_getElem?, ListedKeys.mem_byTitle]
  cases hstale : (ListedKeys.ofListing listing).byTitle[entry.1]?.map (·.1) with
  | none =>
      refine (ends_addKey h).mono (fun outcome t hend => ?_) fun _ _ => False.elim
      obtain ⟨hreplaces, hrest⟩ := hend
      have hsame : refusals listing (entry :: entries) s.script.deleteDeployKey =
          refusals listing entries s.script.deleteDeployKey :=
        refusals_of_unlisted (by simpa [hstale] using hlisted)
      rw [hrest]
      exact ⟨[entry], [], hreplaces, granted_cons hnew hsame, by rw [hsame]; rfl⟩
  | some stale =>
      have hmem : entry.1 ∈ listing.map (·.title) := by simp [hlisted, hstale]
      cases hanswer : s.script.deleteDeployKey.headD (.ok ()) with
      | ok _ =>
          refine (ends_replaceKey_of_ok h hanswer).mono (fun outcome t hend => ?_)
            fun _ _ => False.elim
          obtain ⟨hreplaces, hrest⟩ := hend
          have hsame : refusals listing (entry :: entries) s.script.deleteDeployKey =
              refusals listing entries s.script.deleteDeployKey.tail :=
            refusals_of_ok hmem hanswer
          rw [hrest]
          exact ⟨[entry], [], hreplaces, granted_cons hnew hsame, by rw [hsame]; rfl⟩
      | error failure =>
          refine (ends_replaceKey_of_error hanswer).mono (fun outcome t hend => ?_)
            fun _ _ => False.elim
          obtain ⟨hreplaces, hrest⟩ := hend
          rw [hrest]
          exact ⟨[], _, hreplaces, granted_cons_of_error hnew hmem hanswer,
            by rw [refusals_of_error hmem hanswer]; rfl⟩

/-- The answers to deletions, in their order, decide which entries are added. -/
theorem ends_replaceKeys (listing : List RemoteDeployKey) {entries : List (String × DeployKey)}
    (hnodup : entries.Nodup) (h : GrantsKeys s) :
    Act.Ends (entries.mapM fun (title, key) => (forge baseUrl).replaceKey path
        ((ListedKeys.ofListing listing).byTitle[title]?.map (·.1)) title key) s
      (fun outcomes t => Replaces path (granted listing entries s.script.deleteDeployKey)
        ((refusals listing entries s.script.deleteDeployKey).map refusalText) outcomes s t)
      fun _ _ => False := by
  induction entries generalizing s with
  | nil => exact ⟨rfl, .refl .., follows_chains.refl s⟩
  | cons entry rest ih =>
      obtain ⟨hnew, hnodup⟩ := List.nodup_cons.1 hnodup
      rw [List.mapM_cons]
      refine (ends_replaceKey listing hnew h).bind fun outcome t hentry => ?_
      obtain ⟨added, errors, hreplaces, hgranted, hrefused⟩ := hentry
      rw [Act.ends_bind, hgranted, hrefused]
      exact (ih hnodup (h.follows hreplaces.follows)).mono
        (fun outcomes u hrest => hreplaces.append hrest) fun _ _ => id

/-! ## Updates -/

/-- Every deletion that is still to come succeeds, or finds its key gone. -/
def DropsKeys (s : State) : Prop :=
  ∀ answer ∈ s.script.deleteDeployKey,
    answer = .ok () ∨ ∃ failure, answer = .error failure ∧ failure.isNotFound

theorem DropsKeys.follows (h : DropsKeys s) (hfollows : Follows s t) : DropsKeys t :=
  fun answer hmem => h answer (hfollows.deletions answer hmem)

/-- A key that is only dropped may be gone. -/
theorem ends_dropKey (h : DropsKeys s) :
    ((forge baseUrl).dropKey path title stale).Ends s
      (fun outcome t => Replaces path [] [] [outcome] s t) fun _ _ => False := by
  unfold Forge.dropKey
  rw [Act.ends_bind, Act.ends_attempt]
  unfold Act.Ends
  rw [runFrom_deleteDeployKey]
  cases hqueue : s.script.deleteDeployKey with
  | nil => exact ⟨rfl, grows_afterDeletion, follows_afterDeletion⟩
  | cons answer rest =>
      obtain rfl | ⟨failure, rfl, hgone⟩ := h answer (by simp [hqueue])
      · exact ⟨rfl, grows_afterDeletion, follows_afterDeletion⟩
      · dsimp only [List.headD_cons]
        rw [if_pos hgone]
        exact ⟨rfl, grows_afterDeletion, follows_afterDeletion⟩

theorem ends_dropKeys (surplus : List (String × UInt64)) (h : DropsKeys s) :
    Act.Ends (surplus.mapM fun (title, id) => (forge baseUrl).dropKey path title id) s
      (fun outcomes t => Replaces path [] [] outcomes s t) fun _ _ => False := by
  apply Act.ends_mapM fun _ outcomes now => Replaces path [] [] outcomes s now
  · intro done entry rest outcomes now _ hnow
    exact (ends_dropKey (h.follows hnow.follows)).mono (fun outcome t ht => hnow.append ht)
      fun _ _ => id
  · exact ⟨rfl, .refl .., follows_chains.refl s⟩

/-- The keys that an update has to add and does not, with the failures that stopped it. -/
def refusedKeys (repo : Descriptor) (listing : List RemoteDeployKey) (s : State) :
    List ((String × DeployKey) × Failure) :=
  refusals listing (keyDelta repo listing).add.toList s.script.deleteDeployKey

/-- The keys that an update adds. -/
def grantedKeys (repo : Descriptor) (listing : List RemoteDeployKey) (s : State) :
    List (String × DeployKey) :=
  granted listing (keyDelta repo listing).add.toList s.script.deleteDeployKey

/-- The failure of an update that does not add all keys. -/
def refusalFailure (repo : Descriptor) (listing : List RemoteDeployKey) (s : State) : Failure :=
  .aggregate "deploy keys"
    ((keyDelta repo listing).add.size + (keyDelta repo listing).remove.size +
      (ListedKeys.ofListing listing).duplicates.length)
    ((refusedKeys repo listing s).map refusalText)

theorem grantedKeys_of_refusedKeys_eq_nil (h : refusedKeys repo listing s = []) :
    grantedKeys repo listing s = (keyDelta repo listing).add.toList := by
  rw [grantedKeys, granted, ← refusedKeys, h]
  simp

/-- The listing is read first, and only the script of listings is used up by that. -/
theorem ends_listDeployKeys (hlisted : s.script.listDeployKeys.headD (.ok []) = .ok listing) :
    ((forge baseUrl).listDeployKeys path).Ends s
      (fun listed t => listed = listing ∧ Replaces path [] [] [] s t ∧
        t.script.deleteDeployKey = s.script.deleteDeployKey)
      fun _ _ => False := by
  have hrun : ((forge baseUrl).listDeployKeys path).runFrom s =
      (s.script.listDeployKeys.headD (.ok []), _) := runFrom_play rfl
  rw [hlisted] at hrun
  exact (Act.ends_of_ok hrun).2 ⟨rfl, ⟨rfl, ⟨_, rfl, rfl⟩, rfl, rfl, fun _ => id, fun _ => id⟩, rfl⟩

/-- The keys are brought in line if no deletion before an addition fails. -/
theorem ends_syncDeployKeys (hlisted : s.script.listDeployKeys.headD (.ok []) = .ok listing)
    (hgrants : GrantsKeys s) (hdrops : DropsKeys s) :
    ((forge baseUrl).syncDeployKeys repo).Ends s
      (fun _ t => refusedKeys repo listing s = [] ∧ Follows s t ∧ Grows State.calls
        Call.isKeyAddition (additions repo.fullPath (grantedKeys repo listing s)) s t)
      fun failure t => refusedKeys repo listing s ≠ [] ∧ failure = refusalFailure repo listing s ∧
        Grows State.calls Call.isKeyAddition
          (additions repo.fullPath (grantedKeys repo listing s)) s t := by
  have hnodup : (keyDelta repo listing).add.toList.Nodup := by
    apply List.Nodup.of_map (·.1)
    rw [Std.ExtTreeMap.map_fst_toList_eq_keys]
    exact Std.ExtTreeMap.nodup_keys
  unfold syncDeployKeys
  rw [Act.ends_bind]
  refine (ends_listDeployKeys hlisted).mono (fun listed t ht => ?_) fun _ _ => False.elim
  obtain ⟨rfl, ht, hqueue⟩ := ht
  rw [Act.ends_bind]
  refine (ends_replaceKeys listed hnodup (hgrants.follows ht.follows)).mono
    (fun added u hu => ?_) fun _ _ => False.elim
  rw [hqueue] at hu
  have hreplaced := ht.append hu
  rw [Act.ends_bind]
  refine (ends_dropKeys _ (hdrops.follows hreplaced.follows)).mono
    (fun dropped v hv => ?_) fun _ _ => False.elim
  have hall := hreplaced.append hv
  have herrors := hall.errors_eq
  have hgrows := hall.grows
  simp only [List.nil_append, List.append_nil] at herrors hgrows
  dsimp only
  rw [herrors, ← refusedKeys, Act.ends_bind]
  cases hrefused : refusedKeys repo listed s with
  | nil => exact ⟨rfl, hall.follows, hgrows⟩
  | cons refusal rest =>
      refine ⟨by simp, ?_, hgrows⟩
      rw [refusalFailure, hrefused]
      rfl

/-- The description is read and at most edited, which adds no key. -/
theorem ends_syncDescription {remote : Option RemoteRepository}
    (hread : s.script.getProject.headD (.ok none) = .ok remote)
    (hedited : s.script.editDescription.headD (.ok ()) = .ok ()) :
    ((forge baseUrl).syncDescription repo).Ends s
      (fun _ t => remote ≠ none ∧ Grows State.calls Call.isKeyAddition [] s t)
      fun failure t => remote = none ∧ failure = .notFound ("repository " ++ repo.fullPath) ∧
        Grows State.calls Call.isKeyAddition [] s t := by
  have hget : ((forge baseUrl).getProject repo.fullPath).runFrom s =
      (s.script.getProject.headD (.ok none), _) := runFrom_play rfl
  rw [hread] at hget
  unfold syncDescription
  rw [Act.ends_bind, Act.ends_of_ok hget]
  cases remote with
  | none => exact ⟨rfl, rfl, _, rfl, rfl⟩
  | some remote =>
      dsimp only
      split
      · exact ⟨by simp, _, rfl, rfl⟩
      · rw [Act.ends_bind]
        unfold Act.Ends
        rw [show ((forge baseUrl).editDescription repo.fullPath
          repo.effectiveDisplayName).runFrom _ = _ from runFrom_play rfl]
        rw [show List.headD _ _ = _ from hedited]
        exact ⟨by simp, [.getProject repo.fullPath,
          .editDescription repo.fullPath repo.effectiveDisplayName], by simp, rfl⟩

/-- Suppose that deletions at worst find their key gone and that all other calls succeed. An update
then adds every key that has to be added, except those whose title is listed under another key which
is gone when it is to be replaced. If there are such keys, the update fails with one error for each;
otherwise it succeeds, provided that there is a repository. -/
theorem adds_all_unless_gone {remote : Option RemoteRepository}
    (hlisted : s.script.listDeployKeys.headD (.ok []) = .ok listing)
    (hgrants : ∀ answer ∈ s.script.addDeployKey, answer = .ok ())
    (hdrops : ∀ answer ∈ s.script.deleteDeployKey,
      answer = .ok () ∨ ∃ failure, answer = .error failure ∧ failure.isNotFound)
    (hread : s.script.getProject.headD (.ok none) = .ok remote)
    (hedited : s.script.editDescription.headD (.ok ()) = .ok ()) :
    ((forge baseUrl).updateRepository repo).Ends s
      (fun _ t => refusedKeys repo listing s = [] ∧ remote ≠ none ∧
        Grows State.calls Call.isKeyAddition
          (additions repo.fullPath (keyDelta repo listing).add.toList) s t)
      fun failure t =>
        refusedKeys repo listing s ≠ [] ∧ failure = refusalFailure repo listing s ∧
          Grows State.calls Call.isKeyAddition
            (additions repo.fullPath (grantedKeys repo listing s)) s t ∨
        refusedKeys repo listing s = [] ∧ remote = none ∧
          failure = .notFound ("repository " ++ repo.fullPath) ∧
          Grows State.calls Call.isKeyAddition
            (additions repo.fullPath (keyDelta repo listing).add.toList) s t := by
  unfold updateRepository
  refine ((ends_syncDeployKeys hlisted hgrants hdrops).mono (fun _ _ => id)
    fun _ _ => .inl).bind fun changed t hkeys => ?_
  obtain ⟨hnone, hfollows, hadded⟩ := hkeys
  rw [grantedKeys_of_refusedKeys_eq_nil hnone] at hadded
  rw [Act.ends_bind]
  refine (ends_syncDescription (hfollows.getProject ▸ hread)
    (hfollows.editDescription ▸ hedited)).mono (fun nameChanged u hu => ?_) fun failure u hu => ?_
  · obtain ⟨hsome, hmore⟩ := hu
    exact ⟨hnone, hsome, by simpa using hadded.trans hmore⟩
  · obtain ⟨habsent, hfailure, hmore⟩ := hu
    exact .inr ⟨hnone, habsent, hfailure, by simpa using hadded.trans hmore⟩

/-- A wanted key is listed with other material, and it is gone when it is to be replaced. -/
def vanishing : State where
  script.listDeployKeys := [.ok [{ listedKey with key := "ssh-ed25519 OLD" }]]
  script.deleteDeployKey := [.error (.notFound "404 Deploy Key Not Found")]
  script.getProject := [.ok (some { id := 1, fullPath := "acme/r", description := "r" })]

theorem adds_all_unless_gone_vanishing :
    ((forge "https://git.example").updateRepository keyedRepository).Ends vanishing
      (fun _ _ => False) fun _ t => Grows State.calls Call.isKeyAddition [] vanishing t := by
  refine (adds_all_unless_gone (s := vanishing) rfl (by decide) ?_ rfl rfl).mono
    (fun _ _ hend => ?_) fun _ _ hend => ?_
  · simp [vanishing, Failure.isNotFound]
  · exact absurd hend.1 (by decide +kernel)
  · have hrefused : refusedKeys keyedRepository [{ listedKey with key := "ssh-ed25519 OLD" }]
        vanishing ≠ [] := by decide +kernel
    have hnone : grantedKeys keyedRepository [{ listedKey with key := "ssh-ed25519 OLD" }]
        vanishing = [] := by decide +kernel
    obtain ⟨-, -, hadded⟩ | ⟨hgone, -⟩ := hend
    · simpa [hnone, additions] using hadded
    · exact absurd hgone hrefused

/-- An update does not make up for a key that is gone when it is to be replaced. -/
theorem key_not_added_after_vanishing :
    ¬ ∀ (s : State) (repo : Descriptor) (listing : List RemoteDeployKey)
        (remote : RemoteRepository),
      s.script.listDeployKeys = [.ok listing] →
      (∀ answer ∈ s.script.addDeployKey, answer = .ok ()) →
      (∀ answer ∈ s.script.deleteDeployKey,
        answer = .ok () ∨ ∃ failure, answer = .error failure ∧ failure.isNotFound) →
      s.script.getProject = [.ok (some remote)] → s.script.editDescription = [] →
      ((forge "https://git.example").updateRepository repo).Ends s
        (fun _ t => ∀ entry ∈ (keyDelta repo listing).add.toList,
          .addDeployKey repo.fullPath entry.1 entry.2 ∈ t.calls)
        fun _ _ => False := by
  intro h
  have hend := h vanishing keyedRepository _ _ rfl (by decide)
    (by simp [vanishing, Failure.isNotFound]) rfl rfl
  obtain ⟨changed, t, hrun, -⟩ := hend.exists_ok
  have hfails : (((forge "https://git.example").updateRepository keyedRepository).runFrom
      vanishing).1.toBool = false := by decide +kernel
  rw [hrun] at hfails
  cases hfails

end Scripted

end ForgeSync.Forge
