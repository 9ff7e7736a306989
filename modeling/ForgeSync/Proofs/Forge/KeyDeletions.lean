import ForgeSync.Proofs.Repository.KeyListing
import ForgeSync.Proofs.Scripted.Calls

/-!
# Deploy keys that an update deletes

Which identifiers an update deletes follows from the listing and the descriptor alone: every key that
has to go is deleted once, and a deletion that fails stops no other. The listing tells keys apart by
their places, deletions by their identifiers. So a key that is listed twice is kept at its first
place and deleted from its second.

Main statements: `grows_updateRepository` and `deletes_kept_key_iff_repeated`.
-/

namespace ForgeSync

namespace Forge

variable {σ : Type} {forge : Forge σ} {log : σ → List Call} {kind : Call → Bool} {s t : σ}
  {repo : Descriptor} {listing : List RemoteDeployKey}

/-- The calls that delete a deploy key. -/
def Call.isKeyDeletion : Call → Bool
  | .deleteDeployKey _ _ => true
  | _ => false

/-! ## Single keys -/

theorem says_addKey (h : forge.Records log) (path title : String) (key : DeployKey) :
    Act.Says log kind ([.addDeployKey path title key].filter kind)
      (forge.addKey path title key) := by
  rw [← List.append_nil (List.filter kind _)]
  refine (Act.says_attempt (Act.moves_map.1 (h.moves kind (.addDeployKey path title key)))).bind
    fun outcome => ?_
  cases outcome <;> exact Act.says_pure log kind _

theorem says_dropKey (h : forge.Records log) (path title : String) (id : UInt64) :
    Act.Says log kind ([.deleteDeployKey path id].filter kind) (forge.dropKey path title id) := by
  rw [← List.append_nil (List.filter kind _)]
  refine (Act.says_attempt (Act.moves_map.1 (h.moves kind (.deleteDeployKey path id)))).bind
    fun outcome => ?_
  cases outcome with
  | ok _ => exact Act.says_pure log kind _
  | error failure =>
      dsimp only
      split <;> exact Act.says_pure log kind _

/-- Whether the key is added depends on how its deletion ends, but the deletion is tried. -/
theorem says_replaceKey (h : forge.Records log) (path title : String) (stale : Option UInt64)
    (key : DeployKey) :
    Act.Says log Call.isKeyDeletion (stale.toList.map (.deleteDeployKey path))
      (forge.replaceKey path stale title key) := by
  have hadd : Act.Says log Call.isKeyDeletion [] (forge.addKey path title key) :=
    says_addKey h path title key
  cases stale with
  | none => exact hadd
  | some id =>
      rw [← List.append_nil (List.map _ _)]
      refine (Act.says_attempt (Act.moves_map.1
        (h.moves Call.isKeyDeletion (.deleteDeployKey path id)))).bind fun outcome => ?_
      cases outcome with
      | ok _ => exact hadd
      | error failure => exact Act.says_pure log _ _

/-! ## Updates -/

theorem says_replaceKeys (h : forge.Records log) (listing : List RemoteDeployKey) (path : String)
    (entries : List (String × DeployKey)) :
    Act.Says log Call.isKeyDeletion ((staleIds listing entries).map (.deleteDeployKey path))
      (entries.mapM fun (title, key) => forge.replaceKey path
        ((ListedKeys.ofListing listing).byTitle[title]?.map (·.1)) title key) := by
  have hcalls : (staleIds listing entries).map (Call.deleteDeployKey path) =
      entries.flatMap fun entry => ((ListedKeys.ofListing listing).byTitle[entry.1]?.map
        (·.1)).toList.map (.deleteDeployKey path) := by
    rw [staleIds, List.filterMap_eq_flatMap_toList, List.map_flatMap]
  rw [hcalls]
  exact Act.says_mapM fun entry _ => says_replaceKey h path entry.1 _ entry.2

theorem says_dropKeys (h : forge.Records log) (path : String) (surplus : List (String × UInt64)) :
    Act.Says log Call.isKeyDeletion ((surplus.map (·.2)).map (.deleteDeployKey path))
      (surplus.mapM fun (title, id) => forge.dropKey path title id) := by
  rw [List.map_map, List.map_eq_flatMap]
  exact Act.says_mapM fun entry _ => says_dropKey h path entry.1 entry.2

/-- The keys to delete are deleted in turn, whatever is answered. -/
theorem grows_syncDeployKeys (h : forge.Records log)
    (hlisted : (forge.listDeployKeys repo.fullPath).runFrom s = (.ok listing, t)) :
    Grows log Call.isKeyDeletion
      ((deletedIds repo listing).map (.deleteDeployKey repo.fullPath))
      s ((forge.syncDeployKeys repo).runFrom s).2 := by
  have hlist : Grows log Call.isKeyDeletion [] s t := by
    have hmoved := Act.moves_map.1
      (h.moves Call.isKeyDeletion (.listDeployKeys repo.fullPath)) s
    rwa [hlisted] at hmoved
  apply Act.ends_iff_runFrom.1
  unfold syncDeployKeys
  rw [deletedIds, List.map_append, Act.ends_bind, Act.ends_of_ok hlisted, Act.ends_bind]
  refine (says_replaceKeys h listing repo.fullPath (keyDelta repo listing).add.toList t).mono
    (fun added u hadded => ?_) fun _ _ => False.elim
  rw [Act.ends_bind]
  refine (says_dropKeys h repo.fullPath
    (surplusKeys (.ofListing listing) (keyDelta repo listing)) u).mono
    (fun dropped v hdropped => ?_) fun _ _ => False.elim
  -- the verdict on the outcomes makes no call
  have hall : Grows log Call.isKeyDeletion _ s v := hlist.trans (hadded.trans hdropped)
  rw [List.nil_append] at hall
  rw [Act.ends_bind]
  cases Failure.ofBatch "deploy keys" _ _ <;> exact hall

theorem grows_updateRepository (h : forge.Records log)
    (hlisted : (forge.listDeployKeys repo.fullPath).runFrom s = (.ok listing, t)) :
    Grows log Call.isKeyDeletion
      ((deletedIds repo listing).map (.deleteDeployKey repo.fullPath))
      s ((forge.updateRepository repo).runFrom s).2 := by
  have hkeys := grows_syncDeployKeys h hlisted
  have hdescription : Act.Moves (Grows log Call.isKeyDeletion []) (forge.syncDescription repo) :=
    moves_syncDescription (Grows.chains log _)
      (Act.moves_map.1 (h.moves Call.isKeyDeletion (.getProject repo.fullPath)))
      (Act.moves_map.1 (h.moves Call.isKeyDeletion
        (.editDescription repo.fullPath repo.effectiveDisplayName)))
  unfold updateRepository
  rw [Act.runFrom_bind]
  rcases hrun : (forge.syncDeployKeys repo).runFrom s with ⟨failure | changed, u⟩
  · rwa [hrun] at hkeys
  · rw [hrun] at hkeys
    have hrest := (Grows.chains log Call.isKeyDeletion).moves_bind hdescription
      (fun nameChanged => (Grows.chains log _).moves_pure (changed || nameChanged)) u
    rw [← List.append_nil (List.map _ _)]
    exact hkeys.trans hrest

/-! ## A key that is kept -/

/-- A key that is kept has to go as well exactly if it is listed again. -/
theorem goes_iff_repeated {k : RemoteDeployKey}
    (hfirst : listing.find? (·.title = k.title) = some k)
    (hwanted : repo.deployKeys[k.title]? = some k.parsed) :
    Goes repo listing k ↔ 2 ≤ listing.count k := by
  obtain ⟨-, before, after, rfl, hnone⟩ := List.find?_eq_some_iff_append.1 hfirst
  have htitles : k.title ∉ before.map (·.title) := fun hmem => by
    obtain ⟨l, hl, htitle⟩ := List.mem_map.1 hmem
    simpa [htitle] using hnone l hl
  have hbefore : k ∉ before := fun hmem => htitles (List.mem_map_of_mem hmem)
  have hcount : 2 ≤ (before ++ k :: after).count k ↔ k ∈ after := by
    rw [List.count_append, List.count_eq_zero.2 hbefore, List.count_cons_self,
      ← List.count_pos_iff]
    omega
  rw [hcount]
  constructor
  · intro hgoes
    obtain ⟨front, rest, heq, hcase⟩ := hgoes
    have htitle := hcase.resolve_right (not_not.2 hwanted)
    -- the place that it goes from is not its first one
    obtain ⟨between, rfl, hrest⟩ | ⟨between, rfl, -⟩ := List.append_eq_append_iff.1 heq
    · cases between with
      | nil => exact (htitles (by simpa using htitle)).elim
      | cons l between =>
          obtain ⟨-, rfl⟩ := List.cons.inj hrest
          simp
    · exact (htitles (by rw [List.map_append]; exact List.mem_append_left _ htitle)).elim
  · intro hmem
    obtain ⟨middle, rest, rfl⟩ := List.mem_iff_append.1 hmem
    exact ⟨before ++ k :: middle, rest, by simp, .inl (by simp)⟩

/-- An update keeps the first key of a title if it is the one that is wanted. It deletes the
identifier of such a key exactly if the listing has that identifier at a place from which a key has
to go; so where identifiers tell keys apart, exactly if the key is listed more than once. -/
theorem deletes_kept_key_iff_repeated (h : forge.Records log)
    (hlisted : (forge.listDeployKeys repo.fullPath).runFrom s = (.ok listing, t))
    {k : RemoteDeployKey} (hfirst : listing.find? (·.title = k.title) = some k)
    (hwanted : repo.deployKeys[k.title]? = some (.ofAuthorizedKey k.key k.canPush)) :
    ∃ new, log ((forge.updateRepository repo).runFrom s).2 = log s ++ new ∧
      (.deleteDeployKey repo.fullPath k.id ∈ new ↔
        ∃ before l after, listing = before ++ l :: after ∧ l.id = k.id ∧
          (l.title ∈ before.map (·.title) ∨
            repo.deployKeys[l.title]? ≠ some (.ofAuthorizedKey l.key l.canPush))) ∧
      ((∀ l ∈ listing, l.id = k.id → l = k) →
        (.deleteDeployKey repo.fullPath k.id ∈ new ↔ 2 ≤ listing.count k)) := by
  obtain ⟨new, hnew, hmem⟩ := (grows_updateRepository h hlisted).exists_mem_iff
  have hdeleted : .deleteDeployKey repo.fullPath k.id ∈ new ↔
      ∃ l, Goes repo listing l ∧ l.id = k.id := by
    rw [hmem _ rfl, ← mem_deletedIds]
    simp
  refine ⟨new, hnew, ?_, fun hsame => ?_⟩
  · rw [hdeleted]
    constructor
    · intro hgoes
      obtain ⟨l, ⟨before, after, heq, hcase⟩, hid⟩ := hgoes
      exact ⟨before, l, after, heq, hid, hcase⟩
    · intro hplace
      obtain ⟨before, l, after, heq, hid, hcase⟩ := hplace
      exact ⟨l, ⟨before, after, heq, hcase⟩, hid⟩
  · rw [hdeleted, ← goes_iff_repeated hfirst hwanted]
    constructor
    · intro hgoes
      obtain ⟨l, hl, hid⟩ := hgoes
      exact hsame l hl.mem hid ▸ hl
    · exact fun hk => ⟨k, hk, rfl⟩

/-- A descriptor with one deploy key. -/
def keyedRepository : Descriptor where
  path := "acme"
  repoName := "r"
  deployKeys := .ofList [("ci", DeployKey.mk "ssh-ed25519" "AAAA" false)]

/-- The wanted key as it is listed. -/
def listedKey : RemoteDeployKey where
  id := 7
  title := "ci"
  key := "ssh-ed25519 AAAA"

/-- A listing whose second page begins with the last key of the first. -/
def overlapping : Scripted.State where
  script.listDeployKeys := [.ok [listedKey, listedKey]]

theorem deletes_kept_key_iff_repeated_overlapping :
    ∃ new, (((Scripted.forge "https://git.example").updateRepository keyedRepository).runFrom
        overlapping).2.calls = overlapping.calls ++ new ∧
      .deleteDeployKey "acme/r" 7 ∈ new := by
  obtain ⟨new, hnew, -, hiff⟩ := deletes_kept_key_iff_repeated (k := listedKey)
    (Scripted.records "https://git.example")
    (show ((Scripted.forge "https://git.example").listDeployKeys
      keyedRepository.fullPath).runFrom overlapping = _ from rfl) (by decide) (by decide +kernel)
  exact ⟨new, hnew, (hiff (by decide)).2 (by decide)⟩

/-- An update does not spare a key that it keeps. Where two pages of a listing overlap, it deletes a
key that is wanted as it is. -/
theorem kept_key_deleted_on_overlap :
    ¬ ∀ (s : Scripted.State) (repo : Descriptor) (listing : List RemoteDeployKey)
        (k : RemoteDeployKey),
      s.calls = [] → s.script.listDeployKeys = [.ok listing] →
      (∀ l ∈ listing, ∀ m ∈ listing, l.id = m.id → l = m) →
      listing.find? (·.title = k.title) = some k →
      repo.deployKeys[k.title]? = some (.ofAuthorizedKey k.key k.canPush) →
      .deleteDeployKey repo.fullPath k.id ∉
        (((Scripted.forge "https://git.example").updateRepository repo).runFrom s).2.calls := by
  intro h
  exact h overlapping keyedRepository [listedKey, listedKey] listedKey rfl rfl (by decide)
    (by decide) (by decide +kernel) (by decide +kernel)

end Forge

end ForgeSync
